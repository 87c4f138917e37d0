import Octet.Proofs.Draft.Ledger

/-!
# A ledger shows what a draft holds

Laying a tree out on a ledger comes to the same as laying it out on a draft: to the same outcome,
and afterwards the ledger shows the draft (`perform_statement_eq`, `perform_emit_eq`,
`perform_generate_eq_ledger`).  So what is true of ledgers is true of drafts.

Two things are between them.  A ledger looks entries up in its dictionaries, so these have to agree
with the lists (`Ledger.Consistent`).  And a ledger has the open loops on a stack, while a statement
that is laid out on a draft is told the label behind the innermost one.  The host of a draft may
have opened loops of its own there, which no statement looks at; so the two are compared whatever
these loops are (`Entry.Mirrors`).
-/

namespace Octet

/-- A dictionary that was made from a list. -/
theorem lookup_zipIdx (keys : List String) (x : String) (n : Nat) :
    (keys.zipIdx n).lookup x = (keys.idxOf? x).map (· + n) := by
  induction keys generalizing n with
  | nil => rfl
  | cons y keys ih =>
    rw [List.zipIdx_cons, List.lookup_cons, List.idxOf?_cons, ih]
    by_cases h : x = y
    · subst h
      simp
    · have hstep : ((· + n) ∘ (· + 1) : Nat → Nat) = (· + (n + 1)) := by
        funext i
        exact (Nat.add_assoc i 1 n).trans (congrArg (i + ·) (Nat.add_comm 1 n))
      simp [beq_false_of_ne h, beq_false_of_ne (Ne.symm h), hstep]

/-- A dictionary and a list still agree when an entry is added to both. -/
theorem lookup_concat {table : List (String × Nat)} {keys : List String}
    (h : ∀ x, table.lookup x = keys.idxOf? x) (y x : String) :
    (table ++ [(y, keys.length)]).lookup x = (keys ++ [y]).idxOf? x := by
  unfold List.idxOf? at h ⊢
  rw [List.lookup_append, h, List.findIdx?_append]
  by_cases hx : x = y
  · subst hx
    simp
  · simp [List.lookup_cons, beq_false_of_ne hx, beq_false_of_ne (Ne.symm hx)]

/-! ## Ledgers and drafts -/

namespace Draft

variable {α β : Type}

/-- The draft with other tables and other loops. -/
def withOthers (d : Draft) (constants registers : List String) (loops : List LoopFrame) : Draft :=
  { d with constants := constants, registers := registers, loops := loops }

/-- An action neither looks at tables and loops nor changes them. -/
def Confined (a : Emit α) : Prop :=
  ∀ d constants registers loops, a.perform (d.withOthers constants registers loops) =
    ((a.perform d).1, (a.perform d).2.withOthers constants registers loops)

theorem Confined.bind {a : Emit α} {f : α → Emit β} (h : Confined a) (hf : ∀ x, Confined (f x)) :
    Confined (a >>= f) := by
  intro d constants registers loops
  rw [Emit.perform_bind, Emit.perform_bind, h d]
  rcases a.perform d with ⟨e | x, d'⟩
  · rfl
  · exact hf x d' ..

theorem confined_fail (fault : CompileFault) (site : Site) : Confined (fail fault site : Emit α) :=
  fun _ _ _ _ => rfl

theorem confined_newLabel : Confined newLabel := fun _ _ _ _ => rfl

theorem confined_mark (k : Label) : Confined (mark k) := fun _ _ _ _ => rfl

theorem confined_emit (op : Opcode) (operand : List UInt8) : Confined (emit op operand) := by
  rw [emit]
  split
  · exact fun _ _ _ _ => rfl
  · exact confined_fail _ _

theorem confined_emitByte (op : Opcode) (n : Int) : Confined (emitByte op n) := by
  rw [emitByte]
  split
  · exact confined_emit op _
  · exact confined_fail _ _

theorem confined_emitWord (op : Opcode) (n : Int) : Confined (emitWord op n) := by
  rw [emitWord]
  split
  · exact confined_emit op _
  · exact confined_fail _ _

theorem confined_emitJump (op : Opcode) (k : Label) : Confined (emitJump op k) :=
  (confined_emitByte op 0).bind fun _ _ _ _ _ => rfl

theorem confined_patch (f : Fixup) : Confined (patch f) := by
  intro d constants registers loops
  rw [patch, Emit.perform_get_bind, Emit.perform_get_bind]
  have haddress : (d.withOthers constants registers loops).address? f.target =
      d.address? f.target := rfl
  rw [haddress]
  cases d.address? f.target with
  | none => rfl
  | some address =>
    dsimp only
    split
    · rfl
    · rfl

theorem confined_forM_patch (fixups : List Fixup) : Confined (fixups.forM patch) := by
  induction fixups with
  | nil => exact fun _ _ _ _ => rfl
  | cons f fixups ih => exact (confined_patch f).bind fun _ => ih

theorem confined_resolve : Confined resolve := by
  intro d constants registers loops
  rw [resolve, Emit.perform_get_bind, Emit.perform_get_bind]
  have hcode : (d.withOthers constants registers loops).code = d.code := rfl
  rw [hcode]
  split
  · rfl
  · exact confined_forM_patch d.fixups d ..

end Draft

namespace Ledger

/-- The dictionaries of a ledger have the places of entries in the lists. -/
structure Consistent (l : Ledger) : Prop where
  numbers : ∀ x, l.numbers.lookup x = l.constants.idxOf? x
  registers : ∀ x, l.registers.lookup x = l.names.idxOf? x

theorem Consistent.withText {l : Ledger} (h : l.Consistent) (value : String) :
    (l.withText value).Consistent :=
  ⟨lookup_concat h.numbers value, h.registers⟩

theorem names_withName (l : Ledger) (name : String) : (l.withName name).names = l.names ++ [name] :=
  List.map_append

theorem length_names (l : Ledger) : l.names.length = l.registers.length :=
  List.length_map _

theorem Consistent.withName {l : Ledger} (h : l.Consistent) (name : String) :
    (l.withName name).Consistent where
  numbers := h.numbers
  registers x := by
    rw [names_withName, Ledger.withName, ← length_names]
    exact lookup_concat h.registers name x

theorem names_ofDraft (d : Draft) : (ofDraft d).names = d.registers :=
  List.zipIdx_map_fst ..

theorem consistent_ofDraft (d : Draft) : (ofDraft d).Consistent where
  numbers x := by
    rw [ofDraft, lookup_zipIdx]
    exact Option.map_id'
  registers x := by
    rw [names_ofDraft, ofDraft, lookup_zipIdx]
    exact Option.map_id'

theorem toDraft_ofDraft (d : Draft) : (ofDraft d).toDraft = d := by
  rw [toDraft, draft, names_ofDraft]
  rfl

theorem consistent_reset (labels : List (Option Nat)) :
    ({ labels := labels } : Ledger).Consistent :=
  ⟨fun _ => rfl, fun _ => rfl⟩

end Ledger

/-! ## Actions -/

namespace Entry

open Ledger

variable {α β : Type} {loopEnd : Option Label}

/-- Inside of a loop, or of none, the second action comes to the same on a ledger as the first one
on a draft. -/
def Mirrors (loopEnd : Option Label) (a : Emit α) (b : Entry α) : Prop :=
  ∀ (l : Ledger) (host : List LoopFrame), l.Consistent → l.loopEnd? = loopEnd →
    a.perform (l.draft host) = ((b.perform l).1, (b.perform l).2.draft host) ∧
    (b.perform l).2.Consistent ∧ (b.perform l).2.loops = l.loops

theorem Mirrors.bind {a : Emit α} {b : Entry α} {f : α → Emit β} {g : α → Entry β}
    (h : Mirrors loopEnd a b) (hf : ∀ x, Mirrors loopEnd (f x) (g x)) :
    Mirrors loopEnd (a >>= f) (b >>= g) := by
  intro l host hl hend
  obtain ⟨hfirst, hconsistent, hloops⟩ := h l host hl hend
  rw [Emit.perform_bind, perform_bind, hfirst]
  generalize b.perform l = reached at hconsistent hloops ⊢
  obtain ⟨e | x, l'⟩ := reached
  · exact ⟨rfl, hconsistent, hloops⟩
  · obtain ⟨hsecond, hconsistent', hloops'⟩ :=
      hf x l' host hconsistent (by rw [loopEnd?, hloops]; exact hend)
    exact ⟨hsecond, hconsistent', hloops'.trans hloops⟩

theorem mirrors_pure (x : α) : Mirrors loopEnd (pure x) (pure x) :=
  fun _ _ hl _ => ⟨rfl, hl, rfl⟩

theorem mirrors_fail (fault : CompileFault) (site : Site) :
    Mirrors loopEnd (Draft.fail fault site : Emit α) (fail fault site) :=
  fun _ _ hl _ => ⟨rfl, hl, rfl⟩

/-- What is left to a draft. -/
theorem mirrors_onDraft {a : Emit α} (h : Draft.Confined a) : Mirrors loopEnd a (onDraft a) := by
  intro l host hl _
  refine ⟨?_, ⟨hl.numbers, hl.registers⟩, rfl⟩
  exact h l.toDraft l.constants l.names host

theorem mirrors_newLabel : Mirrors loopEnd Draft.newLabel newLabel :=
  mirrors_onDraft Draft.confined_newLabel

theorem mirrors_mark (k : Label) : Mirrors loopEnd (Draft.mark k) (mark k) :=
  mirrors_onDraft (Draft.confined_mark k)

theorem mirrors_emit (op : Opcode) (operand : List UInt8) :
    Mirrors loopEnd (Draft.emit op operand) (emit op operand) :=
  mirrors_onDraft (Draft.confined_emit op operand)

theorem mirrors_emitByte (op : Opcode) (n : Int) :
    Mirrors loopEnd (Draft.emitByte op n) (emitByte op n) :=
  mirrors_onDraft (Draft.confined_emitByte op n)

theorem mirrors_emitWord (op : Opcode) (n : Int) :
    Mirrors loopEnd (Draft.emitWord op n) (emitWord op n) :=
  mirrors_onDraft (Draft.confined_emitWord op n)

theorem mirrors_emitJump (op : Opcode) (k : Label) :
    Mirrors loopEnd (Draft.emitJump op k) (emitJump op k) :=
  mirrors_onDraft (Draft.confined_emitJump op k)

/-- A number is the same in both if the entry is found at the same place in both. -/
theorem mirrors_takeNumber {found : Option Nat} {next most : Nat} {grown l l' : Ledger}
    {refusal : CompileError} {r : Except CompileError Nat} (host : List LoopFrame)
    (hl : l.Consistent) (hgrown : grown.Consistent) (hloops : grown.loops = l.loops)
    (h : perform (takeNumber found next most grown refusal) l = (r, l')) :
    Emit.perform (takeNumber found next most (grown.draft host) refusal) (l.draft host) =
      (r, l'.draft host) ∧ l'.Consistent ∧ l'.loops = l.loops := by
  cases found with
  | some i =>
    cases h
    exact ⟨rfl, hl, rfl⟩
  | none =>
    rw [takeNumber] at h ⊢
    split at h
    · rename_i hroom
      rw [if_pos hroom]
      cases h
      exact ⟨rfl, hgrown, hloops⟩
    · rename_i hfull
      rw [if_neg hfull]
      cases h
      exact ⟨rfl, hl, rfl⟩

theorem mirrors_constant (value : String) (site : Site) :
    Mirrors loopEnd (Draft.constant value site) (constant value site) := by
  intro l host hl _
  rw [Draft.constant, Emit.perform_get_bind, constant, perform_get_bind, hl.numbers]
  exact mirrors_takeNumber host hl (hl.withText value) rfl rfl

theorem mirrors_allocate (name : String) (site : Site) :
    Mirrors loopEnd (Draft.allocate name site) (allocate name site) := by
  intro l host hl _
  have hdraft : (l.withName name).draft host =
      { l.draft host with registers := (l.draft host).registers ++ [name] } := by
    rw [draft, names_withName]
    rfl
  rw [Draft.allocate, Emit.perform_get_bind, allocate, perform_get_bind, hl.registers, ← hdraft,
    ← length_names]
  exact mirrors_takeNumber host hl (hl.withName name) rfl rfl

theorem mirrors_lookup (name : String) (site : Site) :
    Mirrors loopEnd (Draft.lookup name site) (lookup name site) := by
  intro l host hl _
  have hregisters : (l.draft host).registers = l.names := rfl
  rw [Draft.lookup, Emit.perform_get_bind, lookup, perform_get_bind, hl.registers, hregisters]
  cases l.names.idxOf? name with
  | some i => exact ⟨rfl, hl, rfl⟩
  | none => exact ⟨rfl, hl, rfl⟩

/-- The stack shows the loop that a block is in. -/
theorem mirrors_inLoop {a : Emit α} {b : Entry α} {frame : LoopFrame}
    (h : Mirrors (some frame.finish) a b) : Mirrors loopEnd a (inLoop frame b) := by
  intro l host hl _
  obtain ⟨hbody, hconsistent, hloops⟩ := h (l.opened frame) host ⟨hl.numbers, hl.registers⟩ rfl
  rw [perform_inLoop]
  refine ⟨hbody, ⟨hconsistent.numbers, hconsistent.registers⟩, ?_⟩
  rw [closed, hloops]
  rfl

end Entry

open Entry

/-! ## Trees -/

section

variable {loopEnd : Option Label}

theorem mirrors_literal (pos : Pos) (value : Option Scalar) :
    Mirrors loopEnd (emitLiteral pos value) (enterLiteral pos value) := by
  match value with
  | some (.bool b) => exact mirrors_emitByte _ _
  | some (.int n) =>
    rw [emitLiteral, enterLiteral]
    split
    · exact mirrors_emitWord _ _
    · exact mirrors_fail _ _
  | some (.text s) => exact (mirrors_constant s _).bind fun _ => mirrors_emitByte _ _
  | some (.real x) => exact mirrors_fail _ _
  | none => exact mirrors_fail _ _

mutual

/-- Laying out an expression. -/
theorem Expr.mirrors : ∀ e : Expr, Mirrors loopEnd e.emit e.enter
  | .literal pos value => by
    rw [Expr.emit, Expr.enter]
    exact mirrors_literal pos value
  | .identifier pos name => by
    rw [Expr.emit, Expr.enter]
    exact (mirrors_lookup name _).bind fun _ => mirrors_emitByte _ _
  | .unary pos op operand => by
    rw [Expr.emit, Expr.enter]
    split
    · exact mirrors_emitWord _ _
    · refine (Expr.mirrors operand).bind fun _ => ?_
      cases unaryOperators.lookup op with
      | some opcode => exact mirrors_emit _ _
      | none => exact mirrors_fail _ _
  | .binary pos left op right => by
    rw [Expr.emit, Expr.enter]
    cases binaryOperators.lookup op with
    | some opcode =>
      exact (Expr.mirrors left).bind fun _ => (Expr.mirrors right).bind fun _ => mirrors_emit _ _
    | none => exact mirrors_fail _ _
  | .call pos name args => by
    rw [Expr.emit, Expr.enter]
    cases Builtin.ofName? name with
    | some builtin =>
      dsimp only
      split
      · exact (Expr.mirrorsList args).bind fun _ => mirrors_emitByte _ _
      · exact mirrors_fail _ _
    | none => exact mirrors_fail _ _
  | .misplaced kind => mirrors_fail _ _

theorem Expr.mirrorsList : ∀ es : List Expr,
    Mirrors loopEnd (Expr.emitList es) (Expr.enterList es)
  | [] => mirrors_pure ()
  | e :: es => by
    rw [Expr.emitList, Expr.enterList]
    exact (Expr.mirrors e).bind fun _ => Expr.mirrorsList es

end

end

mutual

/-- Laying out a statement. -/
theorem Stmt.mirrors (loopEnd : Option Label) : ∀ s : Stmt, Mirrors loopEnd (s.emit loopEnd) s.enter
  | .exprStmt pos e => by
    rw [Stmt.emit, Stmt.enter]
    exact e.mirrors
  | .letDecl pos name value => by
    rw [Stmt.emit, Stmt.enter]
    exact value.mirrors.bind fun _ => (mirrors_allocate name _).bind fun _ => mirrors_emitByte _ _
  | .assign pos name value => by
    rw [Stmt.emit, Stmt.enter]
    exact (mirrors_lookup name _).bind fun _ => value.mirrors.bind fun _ => mirrors_emitByte _ _
  | .returning pos none => mirrors_emit _ _
  | .returning pos (some value) => by
    rw [Stmt.emit, Stmt.enter]
    exact value.mirrors.bind fun _ => mirrors_emit _ _
  | .breaking pos => by
    intro l host hl hend
    rw [Stmt.enter, perform_get_bind, hend]
    cases loopEnd with
    | none => exact mirrors_fail _ _ l host hl hend
    | some k => exact mirrors_emitJump _ k l host hl hend
  | .conditional pos cond body rest => by
    rw [Stmt.emit, Stmt.enter]
    refine mirrors_newLabel.bind fun finish => mirrors_newLabel.bind fun next => ?_
    refine cond.mirrors.bind fun _ => (mirrors_emitJump _ next).bind fun _ => ?_
    refine (Stmt.mirrorsList loopEnd body).bind fun _ => ?_
    exact (Chain.mirrors loopEnd finish next rest).bind fun _ => mirrors_mark finish
  | .loop pos body => by
    rw [Stmt.emit, Stmt.enter]
    refine mirrors_newLabel.bind fun start => mirrors_newLabel.bind fun finish => ?_
    refine (mirrors_mark start).bind fun _ => ?_
    refine (mirrors_inLoop (Stmt.mirrorsList (some finish) body)).bind fun _ => ?_
    exact (mirrors_emitJump _ start).bind fun _ => mirrors_mark finish
  | .fnDecl pos name params body => by
    rw [Stmt.emit, Stmt.enter]
    exact mirrors_fail _ _
  | .misplaced kind => mirrors_fail _ _

theorem Stmt.mirrorsList (loopEnd : Option Label) : ∀ ss : List Stmt,
    Mirrors loopEnd (Stmt.emitList loopEnd ss) (Stmt.enterList ss)
  | [] => mirrors_pure ()
  | s :: ss => by
    rw [Stmt.emitList, Stmt.enterList]
    exact (Stmt.mirrors loopEnd s).bind fun _ => Stmt.mirrorsList loopEnd ss

theorem Chain.mirrors (loopEnd : Option Label) : ∀ (finish next : Label) (rest : Chain),
    Mirrors loopEnd (rest.emit loopEnd finish next) (rest.enter finish next)
  | _, next, .done => mirrors_mark next
  | finish, next, .otherwise body => by
    rw [Chain.emit, Chain.enter]
    refine (mirrors_emitJump _ finish).bind fun _ => (mirrors_mark next).bind fun _ => ?_
    exact Stmt.mirrorsList loopEnd body
  | finish, next, .elseIf cond body rest => by
    rw [Chain.emit, Chain.enter]
    refine (mirrors_emitJump _ finish).bind fun _ => (mirrors_mark next).bind fun _ => ?_
    refine mirrors_newLabel.bind fun later => cond.mirrors.bind fun _ => ?_
    refine (mirrors_emitJump _ later).bind fun _ => ?_
    refine (Stmt.mirrorsList loopEnd body).bind fun _ => ?_
    exact Chain.mirrors loopEnd finish later rest

end

/-! ## Drafts -/

namespace Draft

open Ledger

/-- An action on a draft is the one that mirrors it, on the ledger of the draft. -/
theorem perform_eq_of_mirrors {α : Type} {a : Emit α} {b : Entry α} {d : Draft}
    (h : Mirrors d.loopEnd? a b) :
    a.perform d = ((b.perform (ofDraft d)).1, (b.perform (ofDraft d)).2.toDraft) := by
  obtain ⟨hsame, -, hloops⟩ := h (ofDraft d) d.loops (consistent_ofDraft d) rfl
  have hdraft : (ofDraft d).draft d.loops = d := toDraft_ofDraft d
  rw [hdraft] at hsame
  rw [hsame, toDraft, hloops]
  rfl

/-- **Laying a statement out on a draft is laying it out on the ledger of the draft.** -/
theorem perform_statement_eq (s : Stmt) (d : Draft) :
    (statement s).perform d =
      ((s.enter.perform (ofDraft d)).1, (s.enter.perform (ofDraft d)).2.toDraft) := by
  have hsame := perform_eq_of_mirrors (Stmt.mirrors d.loopEnd? s)
  exact hsame

/-- **Laying an expression out on a draft is laying it out on the ledger of the draft.** -/
theorem perform_emit_eq (e : Expr) (d : Draft) :
    e.emit.perform d =
      ((e.enter.perform (ofDraft d)).1, (e.enter.perform (ofDraft d)).2.toDraft) :=
  perform_eq_of_mirrors e.mirrors

/-- **Laying a program out on a draft is laying it out on any ledger with the labels of the draft.**
-/
theorem perform_generate_eq_ledger (p : Program) {d : Draft} {l : Ledger}
    (hlabels : l.labels = d.labels) :
    (generate p).perform d =
      (((Ledger.generate p).perform l).1, ((Ledger.generate p).perform l).2.toDraft) := by
  have hbody : Mirrors none
      (Stmt.emitList none p.items >>= fun _ => Draft.resolve >>= fun _ => get >>= fun d' =>
        (pure ⟨d'.code, d'.constants⟩ : Emit Image))
      (Stmt.enterList p.items >>= fun _ => Ledger.resolve >>= fun _ => get >>= fun l' =>
        (pure ⟨l'.code, l'.constants⟩ : Entry Image)) := by
    refine (Stmt.mirrorsList none p.items).bind fun _ => ?_
    refine (mirrors_onDraft confined_resolve).bind fun _ => ?_
    exact fun _ _ hl _ => ⟨rfl, hl, rfl⟩
  obtain ⟨hsame, -, hloops⟩ := hbody { labels := d.labels } [] (consistent_reset _) rfl
  -- both begin anew, and keep nothing but their labels
  have hledger : (Ledger.generate p).perform l = (Stmt.enterList p.items >>= fun _ =>
      Ledger.resolve >>= fun _ => get >>= fun l' =>
        (pure ⟨l'.code, l'.constants⟩ : Entry Image)).perform { labels := d.labels } := by
    rw [← hlabels]
    rfl
  rw [hledger, toDraft, hloops]
  exact hsame

end Draft
end Octet
