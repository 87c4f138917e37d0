import Octet.Proofs.Draft.Actions
import Octet.Proofs.Layout.Demands
import Octet.Proofs.Layout.Targets

/-!
# Laying out goes through the demands

Laying a tree out goes through its demands in order.  If all of them are met, it succeeds; otherwise
it fails with the fault of the first one that is not.  `Emit.Answers` says this of an action, given
the demands that were met before.  It is put together from the parts of an action: the demands of
two actions in a row are those of the one followed by those of the other.

A draft knows of the earlier demands what is in its tables, and the tables are just the names and
the texts of the demands (`Demand.tables`).  That an operand is a byte follows from this, since a
table that demands are met with is short enough.  That a literal is a word is a demand of its own,
and comes before the encoding.  So no operand is ever refused for being no byte or no word
(`CompileFault.Warranted`).

What else an action does to a draft is said by a postcondition.  `Draft.Plain` is the one of an
expression, which lengthens the code and leaves labels and fixups alone.
-/

namespace Octet

namespace CompileFault

/-- A fault of the program, which is not laid out for the reason that is given. -/
def Warranted : CompileFault → Prop
  | operandLength .. | operandRange | wordRange | unmarkedLabel .. => False
  | codeTooLong size => maxCodeSize < size
  | targetTooFar address => byte? address = none
  | integerTooWide n => ¬ (Word32.least ≤ n ∧ n ≤ Word32.greatest)
  | unknownUnary op => unaryOperators.lookup op = none
  | unknownBinary op => binaryOperators.lookup op = none
  | unknownCall name => Builtin.ofName? name = none
  | wrongArity name arity given =>
    ∃ builtin, Builtin.ofName? name = some builtin ∧ builtin.arity = arity ∧ given ≠ arity
  | _ => True

/-- A fault of the program has a kind, and is no internal one. -/
theorem Warranted.kind {fault : CompileFault} (h : fault.Warranted) :
    ∃ kind, fault.kind? = some kind ∧ kind ≠ .internal := by
  cases fault with
  | operandLength | operandRange | wordRange | unmarkedLabel => exact h.elim
  | _ => exact ⟨_, rfl, nofun⟩

end CompileFault

/-- The tables after a list of demands. -/
def Demand.tables (demands : List Demand) : Tables :=
  ⟨texts demands, names demands⟩

open Demand

namespace Emit

variable {α β : Type}

/-- All demands up to here are met, and the draft and what is yielded are as they should be; or one
demand is the first that is not met. -/
inductive Answered (demands : List Demand) (Q : α → Draft → Prop) :
    Except CompileError α × Draft → Prop
  | met {x : α} {d : Draft} : AllMet demands → d.tables = tables demands → Q x d →
      Answered demands Q (.ok x, d)
  | unmet {demand : Demand} {site : Site} {d : Draft} : FirstUnmet demands demand →
      demand.fault.Warranted → Answered demands Q (.error ⟨demand.fault, site⟩, d)

/-- Started with earlier demands met, the action goes through its own. -/
def Answers (earlier : List Demand) (d : Draft) (a : Emit α) (demands : List Demand)
    (Q : α → Draft → Prop) : Prop :=
  AllMet earlier → d.tables = tables earlier → Answered (earlier ++ demands) Q (a.perform d)

namespace Answers

variable {earlier demands later : List Demand} {d : Draft} {a : Emit α} {Q : α → Draft → Prop}
  {R : β → Draft → Prop}

/-- An action that has no demands. -/
theorem quiet {x : α} {d' : Draft} (h : a.perform d = (.ok x, d')) (htables : d'.tables = d.tables)
    (hQ : Q x d') : Answers earlier d a [] Q := by
  intro hall hd
  rw [h, List.append_nil]
  exact .met hall (htables.trans hd) hQ

theorem bind {f : α → Emit β} (h : Answers earlier d a demands Q)
    (h' : ∀ x d', Q x d' → Answers (earlier ++ demands) d' (f x) later R) :
    Answers earlier d (a >>= f) (demands ++ later) R := by
  intro hall hd
  have hfirst := h hall hd
  rw [perform_bind, ← List.append_assoc]
  generalize a.perform d = reached at hfirst ⊢
  cases hfirst with
  | met hmet htables hQ => exact h' _ _ hQ hmet htables
  | unmet hunmet hfault => exact .unmet (hunmet.append later) hfault

/-- An action without demands in front of another one. -/
theorem after {f : α → Emit β} {x : α} {d' : Draft} (h : a.perform d = (.ok x, d'))
    (htables : d'.tables = d.tables) (h' : Answers earlier d' (f x) demands R) :
    Answers earlier d (a >>= f) demands R := by
  intro hall hd
  rw [perform_bind, h]
  exact h' hall (htables.trans hd)

/-- An action without demands behind another one. -/
theorem before {f : α → Emit β} (h : Answers earlier d a demands Q)
    (h' : ∀ x d', Q x d' → Answers (earlier ++ demands) d' (f x) [] R) :
    Answers earlier d (a >>= f) demands R := by
  have hboth := h.bind h'
  rwa [List.append_nil] at hboth

theorem mono {Q' : α → Draft → Prop} (h : Answers earlier d a demands Q)
    (hQ : ∀ x d', Q x d' → Q' x d') : Answers earlier d a demands Q' := by
  intro hall hd
  have hend := h hall hd
  generalize a.perform d = reached at hend ⊢
  cases hend with
  | met hmet htables hx => exact .met hmet htables (hQ _ _ hx)
  | unmet hunmet hfault => exact .unmet hunmet hfault

/-- A demand that is met and leaves no trace in the tables. -/
theorem grant {demand : Demand} (hmet : demand.Met earlier) (hbound : demand.bound? = none)
    (htext : demand.text? = none) (h : Answers (earlier ++ [demand]) d a demands Q) :
    Answers earlier d a (demand :: demands) Q := by
  intro hall hd
  have htables : tables (earlier ++ [demand]) = tables earlier := by
    rw [tables, names_concat, texts_concat, hbound, htext]
    rfl
  have hend := h (hall.snoc hmet) (hd.trans htables.symm)
  rwa [List.append_assoc] at hend

/-- A demand that is not met. -/
theorem refuse {demand : Demand} {fault : CompileFault} {site : Site}
    (hunmet : ¬ demand.Met earlier) (hfault : demand.fault = fault) (hwarranted : fault.Warranted) :
    Answers earlier d (Draft.fail fault site : Emit α) (demand :: demands) Q := by
  subst hfault
  exact fun hall _ => .unmet ⟨earlier, demands, rfl, hall, hunmet⟩ hwarranted

end Answers
end Emit

namespace Draft

open Emit

/-- The code grew, and labels and fixups are the same. -/
structure Plain (size : Nat) (d d' : Draft) : Prop where
  length : d'.code.length = d.code.length + size
  labels : d'.labels = d.labels
  fixups : d'.fixups = d.fixups

theorem Plain.refl (d : Draft) : Plain 0 d d := ⟨rfl, rfl, rfl⟩

theorem Plain.trans {m n : Nat} {d d₁ d₂ : Draft} (h : Plain m d d₁) (h' : Plain n d₁ d₂) :
    Plain (m + n) d d₂ :=
  ⟨by rw [h'.length, h.length, Nat.add_assoc], h'.labels.trans h.labels, h'.fixups.trans h.fixups⟩

variable {earlier : List Demand} {d : Draft}

/-! ## Actions -/

theorem perform_emit {op : Opcode} {operand : List UInt8} (h : operand.length = op.width)
    (d : Draft) :
    (emit op operand).perform d = (.ok (), d.withCode (d.code ++ op.toByte :: operand)) := by
  rw [emit, if_pos h]
  rfl

theorem perform_emitByte {op : Opcode} {n : Nat} (hop : op.width = 1) (hn : n < 256) (d : Draft) :
    (emitByte op n).perform d = (.ok (), d.withCode (d.code ++ [op.toByte, UInt8.ofNat n])) := by
  have hlength : [UInt8.ofNat n].length = op.width := hop.symm
  rw [emitByte, if_pos (by omega), Int.toNat_natCast]
  exact perform_emit hlength d

theorem answers_emit {op : Opcode} {operand : List UInt8} (h : operand.length = op.width) :
    Answers earlier d (emit op operand) [] fun _ => Plain (op.width + 1) d :=
  .quiet (perform_emit h d) rfl ⟨by rw [withCode_code, List.length_append, List.length_cons, h],
    rfl, rfl⟩

theorem answers_emitByte {op : Opcode} {n : Nat} (hop : op.width = 1) (hn : n < 256) :
    Answers earlier d (emitByte op n) [] fun _ => Plain 2 d :=
  .quiet (perform_emitByte hop hn d) rfl ⟨by rw [withCode_code, List.length_append]; rfl, rfl, rfl⟩

theorem answers_emitWord {op : Opcode} {n : Int} (hop : op.width = 4)
    (hn : Word32.least ≤ n ∧ n ≤ Word32.greatest) :
    Answers earlier d (emitWord op n) [] fun _ => Plain (op.width + 1) d := by
  rw [emitWord_of_mem op hn]
  exact answers_emit hop.symm

/-- The place of an entry is a byte, and looking the entry up adds nothing to the table. -/
theorem place_of_entry {table grown : List String} {x : String} {i max : Nat}
    (hgrown : grown = if x ∈ table then table else table ++ [x]) (hmax : table.length ≤ max)
    (h : table.idxOf? x = some i) : i < max ∧ x ∈ table ∧ grown = table := by
  have hmem := mem_of_idxOf? h
  exact ⟨Nat.lt_of_lt_of_le (lt_of_idxOf? h) hmax, hmem, by rw [hgrown, if_pos hmem]⟩

/-- A new entry is added at the end of the table. -/
theorem table_of_new {table grown : List String} {x : String}
    (hgrown : grown = if x ∈ table then table else table ++ [x]) (h : table.idxOf? x = none) :
    grown = table ++ [x] := by
  rw [hgrown, if_neg (List.idxOf?_eq_none_iff.1 h)]

/-- A demand that a table be short enough is met if an entry takes a number, and is not if it is
refused. -/
theorem answered_takeNumber {table later : List String} {x : String} {most : Nat} {demand : Demand}
    {site : Site} {grown : Draft} (hall : AllMet earlier)
    (hlater : later = if x ∈ table then table else table ++ [x])
    (hmet : demand.Met earlier ↔ later.length ≤ most) (hmost : table.length ≤ most)
    (hold : later = table → d.tables = Demand.tables (earlier ++ [demand]))
    (hnew : later = table ++ [x] → grown.tables = Demand.tables (earlier ++ [demand]))
    (hplain : d.Plain 0 grown) (hfault : demand.fault.Warranted) :
    Answered (earlier ++ [demand]) (fun i d' => i < most ∧ d.Plain 0 d')
      (perform (takeNumber (table.idxOf? x) table.length most grown ⟨demand.fault, site⟩) d) := by
  obtain ⟨i, hi, hfound⟩ | ⟨hnone, hentered⟩ :=
    takeNumber_cases (table.idxOf? x) table.length most grown ⟨demand.fault, site⟩ d
  · obtain ⟨hlt, -, hsame⟩ := place_of_entry hlater hmost hi
    rw [perform, hfound]
    exact .met (hall.snoc (hmet.2 (hsame ▸ hmost))) (hold hsame) ⟨hlt, .refl d⟩
  · have hmore := table_of_new hlater hnone
    have hlength : later.length = table.length + 1 := by rw [hmore, List.length_append]; rfl
    obtain ⟨hroom, hentered⟩ | ⟨hfull, hrefused⟩ := hentered
    · rw [perform, hentered]
      exact .met (hall.snoc (hmet.2 (by omega))) (hnew hmore) ⟨hroom, hplain⟩
    · rw [perform, hrefused]
      refine .unmet ⟨earlier, [], rfl, hall, fun hle => ?_⟩ hfault
      have hfits := hmet.1 hle
      omega

/-- A text takes a number. -/
theorem answers_constant {text : String} {site : Site} :
    Answers earlier d (constant text site) [quotes text] fun i d' => i < 256 ∧ d.Plain 0 d' := by
  intro hall hd
  obtain ⟨hconstants, hregisters⟩ := Tables.mk.inj hd
  have hnames : names (earlier ++ [quotes text]) = names earlier := names_concat ..
  rw [constant, perform_get_bind, hconstants]
  refine answered_takeNumber hall (texts_concat earlier (quotes text)) Iff.rfl hall.length_le.2
    (fun hsame => ?_) (fun hmore => ?_) ⟨rfl, rfl, rfl⟩ trivial
  · rw [hd, Demand.tables, Demand.tables, hnames, hsame]
  · rw [Demand.tables, hnames, hmore, ← hregisters]
    rfl

/-- A variable that is bound takes a register. -/
theorem answers_allocate {name : String} {site : Site} :
    Answers earlier d (allocate name site) [binds name] fun i d' => i < 256 ∧ d.Plain 0 d' := by
  intro hall hd
  obtain ⟨hconstants, hregisters⟩ := Tables.mk.inj hd
  have htexts : texts (earlier ++ [binds name]) = texts earlier := texts_concat ..
  rw [allocate, perform_get_bind, hregisters]
  refine answered_takeNumber hall (names_concat earlier (binds name)) Iff.rfl hall.length_le.1
    (fun hsame => ?_) (fun hmore => ?_) ⟨rfl, rfl, rfl⟩ trivial
  · rw [hd, Demand.tables, Demand.tables, htexts, hsame]
  · rw [Demand.tables, htexts, hmore, ← hconstants]
    rfl

/-- A variable that is used has a register. -/
theorem answers_lookup {name : String} {site : Site} :
    Answers earlier d (lookup name site) [uses name] fun i d' => i < 256 ∧ d.Plain 0 d' := by
  intro hall hd
  obtain ⟨-, hregisters⟩ := Tables.mk.inj hd
  rw [lookup, perform_get_bind, hregisters]
  split
  · rename_i i hi
    obtain ⟨hlt, hmem, -⟩ := place_of_entry rfl hall.length_le.1 hi
    refine .met (hall.snoc (mem_names.1 hmem)) ?_ ⟨hlt, .refl d⟩
    rw [hd, Demand.tables, Demand.tables, names_concat, texts_concat]
    rfl
  · rename_i hnone
    refine .unmet ⟨earlier, [], rfl, hall, fun hbound => ?_⟩ trivial
    exact List.idxOf?_eq_none_iff.1 hnone (mem_names.2 hbound)

/-- An action that takes a number, and an instruction with this number. -/
theorem answers_numbered {op : Opcode} {a : Emit Nat} {demand : Demand} (hop : op.width = 1)
    (h : Answers earlier d a [demand] fun i d' => i < 256 ∧ d.Plain 0 d') :
    Answers earlier d (do emitByte op (← a)) [demand] fun _ => Plain 2 d :=
  h.before fun _ _ ⟨hi, hplain⟩ => (answers_emitByte hop hi).mono fun _ _ hbyte =>
    hplain.trans hbyte

/-! ## Expressions -/

theorem answers_literal {pos : Pos} {value : Option Scalar} :
    Answers earlier d (emitLiteral pos value) (literalDemands value)
      fun _ => Plain (Expr.literal pos value).size d := by
  match value with
  | some (.bool b) =>
    cases b with
    | false => exact answers_emitByte (n := 0) rfl (by decide)
    | true => exact answers_emitByte (n := 1) rfl (by decide)
  | some (.int n) =>
    rw [emitLiteral, literalDemands]
    split
    · rename_i hword
      exact .grant hword rfl rfl (answers_emitWord rfl hword)
    · rename_i hword
      exact .refuse hword rfl hword
  | some (.text s) => exact answers_numbered rfl answers_constant
  | some (.real x) => exact .refuse id rfl trivial
  | none => exact .refuse id rfl trivial

/-- An operator is an instruction without an operand. -/
theorem width_of_lookup {operators : List (String × Opcode)}
    (h : ∀ entry ∈ operators, entry.2.width = 0) {op : String} {opcode : Opcode}
    (hop : operators.lookup op = some opcode) : opcode.width = 0 :=
  h _ (mem_of_lookup hop)

theorem answers_operator {opcode : Opcode} (h : opcode.width = 0) :
    Answers earlier d (emit opcode []) [] fun _ => Plain 1 d := by
  have hlast : Answers earlier d (emit opcode []) [] fun _ => Plain (opcode.width + 1) d :=
    answers_emit h.symm
  rwa [h] at hlast

mutual

/-- Laying out an expression. -/
theorem Expr.answers : ∀ (e : Expr) {earlier : List Demand} {d : Draft},
    Answers earlier d e.emit e.demands fun _ => Plain e.size d
  | .literal pos value, _, _ => by
    rw [Expr.emit, Expr.demands]
    exact answers_literal
  | .identifier pos name, _, _ => by
    rw [Expr.emit, Expr.demands, Expr.size]
    exact answers_numbered rfl answers_lookup
  | .unary pos op operand, _, _ => by
    rw [Expr.emit, Expr.demands, Expr.size]
    split
    · exact answers_emitWord rfl (by decide)
    · refine (Expr.answers operand).bind fun _ _ hoperand => ?_
      rw [operatorDemands]
      split
      · rename_i opcode hop
        rw [hop]
        exact (answers_operator (width_of_lookup (by decide) hop)).mono fun _ _ => hoperand.trans
      · rename_i hop
        rw [hop]
        exact .refuse id rfl hop
  | .binary pos left op right, _, _ => by
    rw [Expr.emit, Expr.demands, Expr.size, operatorDemands]
    split
    · rename_i opcode hop
      rw [hop]
      refine (Expr.answers left).bind fun _ _ hleft => ?_
      refine (Expr.answers right).before fun _ _ hright => ?_
      exact (answers_operator (width_of_lookup (by decide) hop)).mono fun _ _ =>
        (hleft.trans hright).trans
    · rename_i hop
      rw [hop]
      exact .refuse id rfl hop
  | .call pos name args, _, _ => by
    rw [Expr.emit, Expr.demands, Expr.size]
    split
    · rename_i builtin hname
      split
      · rename_i hlength
        refine .grant ⟨builtin, hname, hlength.symm⟩ rfl rfl ?_
        refine (Expr.answersList args).before fun _ _ hargs => ?_
        exact (answers_emitByte rfl (by cases builtin <;> decide)).mono fun _ _ => hargs.trans
      · rename_i hlength
        refine .refuse ?_ ?_ ⟨builtin, hname, rfl, hlength⟩
        · rintro ⟨other, hother, harity⟩
          cases hname.symm.trans hother
          exact hlength harity.symm
        · rw [Demand.fault, hname]
    · rename_i hname
      refine .refuse ?_ ?_ hname
      · rintro ⟨other, hother, -⟩
        cases hname.symm.trans hother
      · rw [Demand.fault, hname]
  | .misplaced kind, _, _ => .refuse id rfl trivial

theorem Expr.answersList : ∀ (es : List Expr) {earlier : List Demand} {d : Draft},
    Answers earlier d (Expr.emitList es) (Expr.demandsList es) fun _ => Plain (Expr.sizeList es) d
  | [], _, _ => .quiet rfl rfl (.refl _)
  | e :: es, _, _ => by
    rw [Expr.emitList, Expr.demandsList, Expr.sizeList]
    exact (Expr.answers e).bind fun _ _ he => (Expr.answersList es).mono fun _ _ => he.trans

end

end Draft
end Octet
