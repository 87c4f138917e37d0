import Octet.Proofs.Draft.Ledger

/-!
# How a ledger grows

Laying a tree out changes a ledger in small steps: an instruction or a jump is appended, a text or a
variable is entered, a label is made or marked.  `Ledger.Grows` says that one ledger comes from
another in such steps, and which texts and variables were asked for on the way.  Nothing else
happens to a ledger, whether the tree is laid out or fails somewhere inside (`Stmt.grows`).  What
the steps preserve is therefore preserved by every tree, and no tree has to be gone through again to
see it.

The texts and variables that a tree asks for are found from the tree alone (`Stmt.texts`,
`Stmt.bindings`), in the order in which it is laid out.  A tree that fails has asked for the first
few of them.

A loop is opened and closed around the steps of its block, so there is no step that leaves a loop
open.  Whether there may be jumps and labels is said beside the steps, since expressions and plain
statements have none.
-/

namespace Octet

/-! ## Texts and variables of a tree -/

mutual

/-- The texts that an expression mentions, from left to right. -/
def Expr.texts : Expr → List String
  | .literal _ (some (.text s)) => [s]
  | .literal .. | .identifier .. | .misplaced _ => []
  | .unary _ _ operand => operand.texts
  | .binary _ left _ right => left.texts ++ right.texts
  | .call _ _ args => Expr.textsList args

/-- The texts of expressions one after the other. -/
def Expr.textsList : List Expr → List String
  | [] => []
  | e :: es => e.texts ++ Expr.textsList es

end

mutual

/-- The texts that a statement mentions, from front to back. -/
def Stmt.texts : Stmt → List String
  | .exprStmt _ e | .letDecl _ _ e | .assign _ _ e | .returning _ (some e) => e.texts
  | .conditional _ cond body rest => cond.texts ++ (Stmt.textsList body ++ rest.texts)
  | .loop _ body => Stmt.textsList body
  | .returning _ none | .breaking _ | .fnDecl .. | .misplaced _ => []

/-- The texts of a block. -/
def Stmt.textsList : List Stmt → List String
  | [] => []
  | s :: ss => s.texts ++ Stmt.textsList ss

/-- The texts of what follows a block of a conditional. -/
def Chain.texts : Chain → List String
  | .done => []
  | .otherwise body => Stmt.textsList body
  | .elseIf cond body rest => cond.texts ++ (Stmt.textsList body ++ rest.texts)

end

mutual

/-- The variables that a statement binds, from front to back. -/
def Stmt.bindings : Stmt → List String
  | .letDecl _ name _ => [name]
  | .conditional _ _ body rest => Stmt.bindingsList body ++ rest.bindings
  | .loop _ body => Stmt.bindingsList body
  | .exprStmt .. | .assign .. | .returning .. | .breaking _ | .fnDecl .. | .misplaced _ => []

/-- The variables that a block binds. -/
def Stmt.bindingsList : List Stmt → List String
  | [] => []
  | s :: ss => s.bindings ++ Stmt.bindingsList ss

/-- The variables that are bound in what follows a block of a conditional. -/
def Chain.bindings : Chain → List String
  | .done => []
  | .otherwise body => Stmt.bindingsList body
  | .elseIf _ body rest => Stmt.bindingsList body ++ rest.bindings

end

/-! ## Steps -/

namespace Ledger

/-- The ledger with other code. -/
def withCode (l : Ledger) (code : List UInt8) : Ledger :=
  { l with code := code }

/-- The ledger with other labels. -/
def withLabels (l : Ledger) (labels : List (Option Nat)) : Ledger :=
  { l with labels := labels }

/-- The ledger with a jump behind its code that waits for the address of a label. -/
def withJump (l : Ledger) (i : Instr) (k : Label) : Ledger :=
  { l with code := l.code ++ i.bytes, fixups := l.fixups ++ [⟨l.code.length + 1, k⟩] }

/-- One ledger comes from another in steps, and these texts and variables were asked for on the way.
Whether jumps and labels are among the steps is said first. -/
inductive Grows : Bool → List String → List String → Ledger → Ledger → Prop
  /-- There were no steps. -/
  | refl {b : Bool} (l : Ledger) : Grows b [] [] l l
  /-- An instruction was appended. -/
  | instr {b : Bool} (l : Ledger) (i : Instr) : Grows b [] [] l (l.withCode (l.code ++ i.bytes))
  /-- A new text was entered. -/
  | text {b : Bool} {l : Ledger} {x : String} : l.numbers.lookup x = none →
      l.constants.length < maxConstants → Grows b [x] [] l (l.withText x)
  /-- A text was found. -/
  | oldText {b : Bool} {l : Ledger} {x : String} {i : Nat} : l.numbers.lookup x = some i →
      Grows b [x] [] l l
  /-- A new variable was entered. -/
  | name {b : Bool} {l : Ledger} {x : String} : l.registers.lookup x = none →
      l.registers.length < maxRegisters → Grows b [] [x] l (l.withName x)
  /-- A variable that is bound was found. -/
  | oldName {b : Bool} {l : Ledger} {x : String} {r : Nat} : l.registers.lookup x = some r →
      Grows b [] [x] l l
  /-- A jump was appended. -/
  | jump (l : Ledger) {i : Instr} (k : Label) : i = .jump 0 ∨ i = .jumpIfFalse 0 →
      Grows true [] [] l (l.withJump i k)
  /-- A label was made. -/
  | label (l : Ledger) : Grows true [] [] l (l.withLabels (l.labels ++ [none]))
  /-- A label was marked. -/
  | mark (l : Ledger) (k : Label) :
      Grows true [] [] l (l.withLabels (l.labels.set k (some l.code.length)))
  /-- There were steps inside of a loop, which has been closed since. -/
  | loop {b : Bool} {xs ns : List String} {l l' : Ledger} (frame : LoopFrame) :
      Grows b xs ns (l.opened frame) l' → Grows b xs ns l l'.closed
  /-- There were steps, and steps behind them. -/
  | trans {b : Bool} {xs ns ys ms : List String} {l l' l'' : Ledger} : Grows b xs ns l l' →
      Grows b ys ms l' l'' → Grows b (xs ++ ys) (ns ++ ms) l l''

end Ledger

/-! ## Actions -/

namespace Entry

open Ledger

variable {α β : Type} {b : Bool} {xs ys ns ms : List String}

/-- An action makes a ledger grow, whether it fails or not.  It asks for these texts and variables,
or for the first few of them if it fails. -/
def Grows (b : Bool) (xs ns : List String) (a : Entry α) : Prop :=
  ∀ l, ∃ xs' ns', Ledger.Grows b xs' ns' l (a.perform l).2 ∧ xs' <+: xs ∧ ns' <+: ns ∧
    ∀ x, (a.perform l).1 = .ok x → xs' = xs ∧ ns' = ns

theorem Grows.bind {a : Entry α} {f : α → Entry β} (h : Grows b xs ns a)
    (hf : ∀ x, Grows b ys ms (f x)) : Grows b (xs ++ ys) (ns ++ ms) (a >>= f) := by
  intro l
  obtain ⟨xs', ns', hgrows, hxs, hns, hok⟩ := h l
  rw [perform_bind]
  generalize a.perform l = reached at hgrows hok ⊢
  obtain ⟨e | x, l'⟩ := reached
  · exact ⟨xs', ns', hgrows, hxs.trans (List.prefix_append ..), hns.trans (List.prefix_append ..),
      nofun⟩
  · obtain ⟨rfl, rfl⟩ := hok x rfl
    obtain ⟨ys', ms', hgrows', hys, hms, hok'⟩ := hf x l'
    refine ⟨xs' ++ ys', ns' ++ ms', hgrows.trans hgrows', ?_, ?_, fun y hy => ?_⟩
    · exact (List.prefix_append_right_inj _).2 hys
    · exact (List.prefix_append_right_inj _).2 hms
    · obtain ⟨rfl, rfl⟩ := hok' y hy
      exact ⟨rfl, rfl⟩

/-- Something that asks for nothing, behind something else. -/
theorem Grows.before {a : Entry α} {f : α → Entry β} (h : Grows b xs ns a)
    (hf : ∀ x, Grows b [] [] (f x)) : Grows b xs ns (a >>= f) := by
  have hboth := h.bind hf
  rwa [List.append_nil, List.append_nil] at hboth

/-- Something that asks for nothing, in front of something else. -/
theorem Grows.after {a : Entry α} {f : α → Entry β} (h : Grows b [] [] a)
    (hf : ∀ x, Grows b xs ns (f x)) : Grows b xs ns (a >>= f) :=
  h.bind hf

/-- An action that takes steps, or fails before it takes any. -/
theorem grows_of_cases {a : Entry α}
    (h : ∀ l, (∃ x l', a.perform l = (.ok x, l') ∧ Ledger.Grows b xs ns l l') ∨
      ∃ e, a.perform l = (.error e, l)) : Grows b xs ns a := by
  intro l
  obtain ⟨x, l', hl', hgrows⟩ | ⟨e, he⟩ := h l
  · rw [hl']
    exact ⟨xs, ns, hgrows, List.prefix_rfl, List.prefix_rfl, fun _ _ => ⟨rfl, rfl⟩⟩
  · rw [he]
    exact ⟨[], [], .refl l, List.nil_prefix, List.nil_prefix, nofun⟩

theorem grows_pure (x : α) : Grows b [] [] (pure x : Entry α) :=
  grows_of_cases fun l => .inl ⟨x, l, rfl, .refl l⟩

theorem grows_fail (fault : CompileFault) (site : Site) :
    Grows b xs ns (fail fault site : Entry α) :=
  grows_of_cases fun _ => .inr ⟨_, rfl⟩

theorem grows_newLabel : Grows true [] [] newLabel :=
  grows_of_cases fun l => .inl ⟨_, _, rfl, .label l⟩

theorem grows_mark (k : Label) : Grows true [] [] (mark k) :=
  grows_of_cases fun l => .inl ⟨_, _, rfl, .mark l k⟩

theorem grows_emit {op : Opcode} {operand : List UInt8}
    (h : operand.length = op.width → ∃ i : Instr, i.bytes = op.toByte :: operand) :
    Grows b [] [] (emit op operand) := by
  refine grows_of_cases fun l => ?_
  obtain ⟨hlength, hemit⟩ | ⟨e, hfailed⟩ := Draft.emit_cases op operand l.toDraft
  · obtain ⟨i, hi⟩ := h hlength
    refine .inl ⟨(), _, perform_onDraft hemit, ?_⟩
    rw [← hi]
    exact .instr l i
  · exact .inr ⟨e, perform_onDraft hfailed⟩

theorem grows_emitByte {op : Opcode} {n : Int}
    (h : ∀ operand, byte? n.toNat = some operand → ∃ i : Instr, i.bytes = [op.toByte, operand]) :
    Grows b [] [] (emitByte op n) := by
  refine grows_of_cases fun l => ?_
  obtain ⟨operand, -, hoperand, hemit⟩ | ⟨e, hfailed⟩ := Draft.emitByte_cases op n l.toDraft
  · obtain ⟨i, hi⟩ := h operand hoperand
    refine .inl ⟨(), _, perform_onDraft hemit, ?_⟩
    rw [← hi]
    exact .instr l i
  · exact .inr ⟨e, perform_onDraft hfailed⟩

theorem grows_emitJump {op : Opcode} {i : Instr} (hi : i = .jump 0 ∨ i = .jumpIfFalse 0)
    (hop : i.bytes = [op.toByte, 0]) (k : Label) : Grows true [] [] (emitJump op k) := by
  refine grows_of_cases fun l => ?_
  obtain ⟨-, hjump⟩ | ⟨e, hfailed⟩ := Draft.emitJump_cases op k l.toDraft
  · refine .inl ⟨(), _, perform_onDraft hjump, ?_⟩
    rw [Draft.withJump, ← hop]
    exact .jump l k hi
  · exact .inr ⟨e, perform_onDraft hfailed⟩

/-- Taking a number is a step, whether the entry is found or is a new one. -/
theorem grows_takeNumber {found : Ledger → Option Nat} {next : Ledger → Nat} {most : Nat}
    {grown : Ledger → Ledger} {refusal : CompileError}
    (hold : ∀ l i, found l = some i → Ledger.Grows b xs ns l l)
    (hnew : ∀ l, found l = none → next l < most → Ledger.Grows b xs ns l (grown l)) :
    Grows b xs ns (do
      let l ← get
      takeNumber (found l) (next l) most (grown l) refusal) := by
  refine grows_of_cases fun l => ?_
  obtain ⟨i, hi, hfound⟩ | ⟨hnone, ⟨hroom, hentered⟩ | ⟨-, hrefused⟩⟩ :=
    takeNumber_cases (found l) (next l) most (grown l) refusal l
  · exact .inl ⟨i, l, hfound, hold l i hi⟩
  · exact .inl ⟨_, _, hentered, hnew l hnone hroom⟩
  · exact .inr ⟨_, hrefused⟩

theorem grows_constant (x : String) (site : Site) : Grows b [x] [] (constant x site) :=
  grows_takeNumber (fun _ _ => .oldText) fun _ => .text

theorem grows_allocate (x : String) (site : Site) : Grows b [] [x] (allocate x site) :=
  grows_takeNumber (fun _ _ => .oldName) fun _ => .name

theorem grows_lookup (x : String) (site : Site) : Grows b [] [] (lookup x site) := by
  refine grows_of_cases fun l => ?_
  obtain ⟨r, -, hfound⟩ | ⟨-, hfailed⟩ := lookup_cases x site l
  · exact .inl ⟨r, l, hfound, .refl l⟩
  · exact .inr hfailed

/-- A loop is closed again whatever happens in there. -/
theorem grows_inLoop {a : Entry α} (frame : LoopFrame) (h : Grows b xs ns a) :
    Grows b xs ns (inLoop frame a) := by
  intro l
  obtain ⟨xs', ns', hgrows, hxs, hns, hok⟩ := h (l.opened frame)
  rw [perform_inLoop]
  exact ⟨xs', ns', .loop frame hgrows, hxs, hns, hok⟩

end Entry

/-! ## Trees -/

open Entry

section

variable {b : Bool}

/-- An operator is appended as an instruction. -/
theorem grows_operator (opcode : Opcode) : Grows b [] [] (Ledger.emit opcode []) := by
  refine grows_emit fun hwidth => ?_
  obtain ⟨i, -, hi⟩ := Instr.exists_instr?_of_width hwidth.symm
  exact ⟨i, hi⟩

theorem grows_pushInt {n : Int} (hn : Word32.least ≤ n ∧ n ≤ Word32.greatest) :
    Grows b [] [] (Ledger.emitWord .pushInt n) := by
  rw [Ledger.emitWord, Draft.emitWord_of_mem _ hn]
  exact grows_emit fun _ => ⟨.pushInt n, rfl⟩

theorem grows_literal (pos : Pos) (value : Option Scalar) :
    Grows b (Expr.literal pos value).texts [] (enterLiteral pos value) := by
  match value with
  | some (.bool c) =>
    refine grows_emitByte fun operand hoperand => ⟨.pushBool c, ?_⟩
    cases c <;> cases hoperand <;> rfl
  | some (.int n) =>
    rw [enterLiteral]
    split
    · rename_i hword
      exact grows_pushInt hword
    · exact grows_fail _ _
  | some (.text s) =>
    exact (grows_constant s _).before fun _ => grows_emitByte fun i _ => ⟨.loadConstant i, rfl⟩
  | some (.real x) => exact grows_fail _ _
  | none => exact grows_fail _ _

/-- The magnitude of the least word is no text. -/
theorem Expr.texts_of_isLeastMagnitude {e : Expr} (h : e.isLeastMagnitude) : e.texts = [] := by
  match e with
  | .literal _ (some (.text s)) => cases h
  | .literal _ (some (.bool _)) | .literal _ (some (.int _)) | .literal _ (some (.real _)) => rfl
  | .literal _ none | .identifier .. | .unary .. | .binary .. | .call .. | .misplaced _ => cases h

mutual

/-- Laying out an expression. -/
theorem Expr.grows : ∀ e : Expr, Grows b e.texts [] e.enter
  | .literal pos value => by
    rw [Expr.enter]
    exact grows_literal pos value
  | .identifier pos name => by
    rw [Expr.enter, Expr.texts]
    exact (grows_lookup name _).before fun _ => grows_emitByte fun r _ => ⟨.loadRegister r, rfl⟩
  | .unary pos op operand => by
    rw [Expr.enter, Expr.texts]
    split
    · rename_i hleast
      rw [Expr.texts_of_isLeastMagnitude hleast.2]
      exact grows_pushInt (by decide)
    · refine (Expr.grows operand).before fun _ => ?_
      cases unaryOperators.lookup op with
      | some opcode => exact grows_operator opcode
      | none => exact grows_fail _ _
  | .binary pos left op right => by
    rw [Expr.enter, Expr.texts]
    cases binaryOperators.lookup op with
    | some opcode =>
      exact (Expr.grows left).bind fun _ => (Expr.grows right).before fun _ => grows_operator opcode
    | none => exact grows_fail _ _
  | .call pos name args => by
    rw [Expr.enter, Expr.texts]
    cases Builtin.ofName? name with
    | some builtin =>
      dsimp only
      split
      · exact (Expr.growsList args).before fun _ => grows_emitByte fun i _ => ⟨.callBuiltin i, rfl⟩
      · exact grows_fail _ _
    | none => exact grows_fail _ _
  | .misplaced kind => grows_fail _ _

theorem Expr.growsList : ∀ es : List Expr, Grows b (Expr.textsList es) [] (Expr.enterList es)
  | [] => grows_pure ()
  | e :: es => by
    rw [Expr.enterList, Expr.textsList]
    exact (Expr.grows e).bind fun _ => Expr.growsList es

end

/-- A variable is bound to a value. -/
theorem grows_letDecl (pos : Pos) (name : String) (value : Expr) :
    Grows b value.texts [name] (Stmt.letDecl pos name value).enter := by
  rw [Stmt.enter, ← List.append_nil value.texts]
  exact value.grows.bind fun _ => (grows_allocate name _).before fun _ =>
    grows_emitByte fun r _ => ⟨.storeRegister r, rfl⟩

/-- A bound variable is given a new value. -/
theorem grows_assign (pos : Pos) (name : String) (value : Expr) :
    Grows b value.texts [] (Stmt.assign pos name value).enter := by
  rw [Stmt.enter]
  exact (grows_lookup name _).after fun _ => value.grows.before fun _ =>
    grows_emitByte fun r _ => ⟨.storeRegister r, rfl⟩

/-- The program ends, perhaps with a result. -/
theorem grows_returning (pos : Pos) (value : Option Expr) :
    Grows b (Stmt.returning pos value).texts [] (Stmt.returning pos value).enter := by
  cases value with
  | none => exact grows_operator .ret
  | some value =>
    rw [Stmt.enter, Stmt.texts]
    exact value.grows.before fun _ => grows_operator .ret

end

theorem grows_jump (k : Label) : Grows true [] [] (Ledger.emitJump .jump k) :=
  grows_emitJump (.inl rfl) rfl k

theorem grows_jumpIfFalse (k : Label) : Grows true [] [] (Ledger.emitJump .jumpIfFalse k) :=
  grows_emitJump (.inr rfl) rfl k

mutual

/-- Laying out a statement. -/
theorem Stmt.grows : ∀ s : Stmt, Grows true s.texts s.bindings s.enter
  | .exprStmt pos e => by
    rw [Stmt.enter, Stmt.texts, Stmt.bindings]
    exact e.grows
  | .letDecl pos name value => by
    rw [Stmt.texts, Stmt.bindings]
    exact grows_letDecl pos name value
  | .assign pos name value => by
    rw [Stmt.texts, Stmt.bindings]
    exact grows_assign pos name value
  | .returning pos value => grows_returning pos value
  | .breaking pos => by
    intro l
    rw [Stmt.enter, perform_get_bind]
    cases l.loopEnd? with
    | some k => exact grows_jump k l
    | none => exact grows_fail _ _ l
  | .conditional pos cond body rest => by
    rw [Stmt.enter, Stmt.texts, Stmt.bindings]
    refine grows_newLabel.after fun finish => grows_newLabel.after fun next => ?_
    refine cond.grows.bind fun _ => (grows_jumpIfFalse next).after fun _ => ?_
    refine (Stmt.growsList body).bind fun _ => ?_
    exact (Chain.grows finish next rest).before fun _ => grows_mark finish
  | .loop pos body => by
    rw [Stmt.enter, Stmt.texts, Stmt.bindings]
    refine grows_newLabel.after fun start => grows_newLabel.after fun finish => ?_
    refine (grows_mark start).after fun _ => ?_
    refine (grows_inLoop _ (Stmt.growsList body)).before fun _ => ?_
    exact (grows_jump start).before fun _ => grows_mark finish
  | .fnDecl pos name params body => by
    rw [Stmt.enter]
    exact grows_fail _ _
  | .misplaced kind => grows_fail _ _

theorem Stmt.growsList : ∀ ss : List Stmt,
    Grows true (Stmt.textsList ss) (Stmt.bindingsList ss) (Stmt.enterList ss)
  | [] => grows_pure ()
  | s :: ss => by
    rw [Stmt.enterList, Stmt.textsList, Stmt.bindingsList]
    exact (Stmt.grows s).bind fun _ => Stmt.growsList ss

theorem Chain.grows (finish next : Label) : ∀ rest : Chain,
    Grows true rest.texts rest.bindings (rest.enter finish next)
  | .done => grows_mark next
  | .otherwise body => by
    rw [Chain.enter, Chain.texts, Chain.bindings]
    exact (grows_jump finish).after fun _ => (grows_mark next).after fun _ => Stmt.growsList body
  | .elseIf cond body rest => by
    rw [Chain.enter, Chain.texts, Chain.bindings]
    refine (grows_jump finish).after fun _ => (grows_mark next).after fun _ => ?_
    refine grows_newLabel.after fun later => cond.grows.bind fun _ => ?_
    refine (grows_jumpIfFalse later).after fun _ => (Stmt.growsList body).bind fun _ => ?_
    exact Chain.grows finish later rest

end

end Octet
