import Mathlib.Data.List.Induction
import Octet.Proofs.Layout.Direct

/-!
# What a program asks for

Laying a program out can fail, and this file says, without laying anything out, when.  A program is
gone through from front to back, and whatever has to be provided for is noted: a register for a
variable, a number for a text, a loop around a `break`, a built-in for a call (`Demand`).  The list
is in the order in which the program is laid out, which is the order of the source but for two
things: a binding comes after its own value, and a call comes before its arguments.

Whether a demand is met depends on those before it and on nothing else (`Demand.Met`): a variable is
found if it was bound before, in whatever block, and there is a register for it if there are not too
many names so far.

Two more things can be wrong, and both are about the code as a whole: it may be too long, and it may
have a jump whose target is the place behind the last address.  The length is `Stmt.sizeList`.  The
targets are `Stmt.targets`, which like the length are found from the tree alone.

`Program.WellFormed` puts the conditions side by side, and `Program.FirstViolation` tells which of
them fails first.
-/

namespace Octet

/-- Something that a program asks for when it is laid out. -/
inductive Demand where
  /-- A variable is bound, which takes a register unless it has one. -/
  | binds (name : String)
  /-- A variable is read or assigned to. -/
  | uses (name : String)
  /-- A text is mentioned, which takes a number unless it has one. -/
  | quotes (text : String)
  /-- An integer is mentioned. -/
  | counts (n : Int)
  /-- A `break` stands in a loop, or in none. -/
  | leaves (inLoop : Bool)
  /-- Something is called with so many arguments. -/
  | calls (name : String) (given : Nat)
  /-- A function is declared. -/
  | declares (name : String)
  /-- There is a node that stands for no instructions. -/
  | refused (fault : CompileFault)
  deriving DecidableEq, Repr

/-! ## The demands of a tree -/

/-- The demand of an operator, which has none if it is known. -/
def operatorDemands (operators : List (String × Opcode)) (op : String) (fault : CompileFault) :
    List Demand :=
  if (operators.lookup op).isSome then [] else [.refused fault]

/-- The demand of a literal. -/
def literalDemands : Option Scalar → List Demand
  | some (.bool _) => []
  | some (.int n) => [.counts n]
  | some (.text s) => [.quotes s]
  | value => [.refused (.unrepresentable value)]

mutual

/-- The demands of an expression.  A minus in front of the magnitude of the least word has none,
though the magnitude is no word. -/
def Expr.demands : Expr → List Demand
  | .literal _ value => literalDemands value
  | .identifier _ name => [.uses name]
  | .unary _ op operand =>
    if op = "-" ∧ operand.isLeastMagnitude then []
    else operand.demands ++ operatorDemands unaryOperators op (.unknownUnary op)
  | .binary _ left op right =>
    operatorDemands binaryOperators op (.unknownBinary op) ++ (left.demands ++ right.demands)
  | .call _ name args => .calls name args.length :: Expr.demandsList args
  | .misplaced kind => [.refused (.misplacedExpression kind)]

/-- The demands of expressions one after the other. -/
def Expr.demandsList : List Expr → List Demand
  | [] => []
  | e :: es => e.demands ++ Expr.demandsList es

end

mutual

/-- The demands of a statement that stands in a loop, or in none. -/
def Stmt.demands (inLoop : Bool) : Stmt → List Demand
  | .exprStmt _ e => e.demands
  | .letDecl _ name value => value.demands ++ [.binds name]
  | .assign _ name value => .uses name :: value.demands
  | .returning _ none => []
  | .returning _ (some value) => value.demands
  | .breaking _ => [.leaves inLoop]
  | .conditional _ cond body rest =>
    cond.demands ++ (Stmt.demandsList inLoop body ++ rest.demands inLoop)
  | .loop _ body => Stmt.demandsList true body
  | .fnDecl _ name _ _ => [.declares name]
  | .misplaced kind => [.refused (.misplacedStatement kind)]

/-- The demands of a block. -/
def Stmt.demandsList (inLoop : Bool) : List Stmt → List Demand
  | [] => []
  | s :: ss => s.demands inLoop ++ Stmt.demandsList inLoop ss

/-- The demands of what follows a block of a conditional. -/
def Chain.demands (inLoop : Bool) : Chain → List Demand
  | .done => []
  | .otherwise body => Stmt.demandsList inLoop body
  | .elseIf cond body rest =>
    cond.demands ++ (Stmt.demandsList inLoop body ++ rest.demands inLoop)

end

/-- The demands of a program. -/
def Program.demands (p : Program) : List Demand :=
  Stmt.demandsList false p.items

/-! ## Meeting a demand -/

namespace Demand

/-- The variable that is bound. -/
def bound? : Demand → Option String
  | binds name => some name
  | _ => none

/-- The text that is mentioned. -/
def text? : Demand → Option String
  | quotes text => some text
  | _ => none

/-- The variables bound so far, each once, in the order of their first bindings. -/
def names (demands : List Demand) : List String :=
  (demands.filterMap bound?).eraseDups

/-- The texts mentioned so far, each once, in the order of their first mentions. -/
def texts (demands : List Demand) : List String :=
  (demands.filterMap text?).eraseDups

/-- A demand is met behind earlier ones. -/
def Met (earlier : List Demand) : Demand → Prop
  | binds name => (names (earlier ++ [binds name])).length ≤ maxRegisters
  | uses name => binds name ∈ earlier
  | quotes text => (texts (earlier ++ [quotes text])).length ≤ maxConstants
  | counts n => Word32.least ≤ n ∧ n ≤ Word32.greatest
  | leaves inLoop => inLoop = true
  | calls name given => ∃ builtin, Builtin.ofName? name = some builtin ∧ builtin.arity = given
  | declares _ | refused _ => False

/-- The fault of a program with a demand that is not met. -/
def fault : Demand → CompileFault
  | binds name => .tooManyRegisters name
  | uses name => .undefinedVariable name
  | quotes _ => .tooManyConstants
  | counts n => .integerTooWide n
  | leaves _ => .breakOutsideLoop
  | calls name given =>
    match Builtin.ofName? name with
    | some builtin => .wrongArity name builtin.arity given
    | none => .unknownCall name
  | declares name => .functionDeclared name
  | refused fault => fault

/-- The kind of fault of a demand that is not met. -/
def kind? : Demand → Option FaultKind
  | binds _ | quotes _ | counts _ => some .limit
  | uses _ => some .undefined
  | leaves _ | declares _ => some .unsupported
  | calls name _ => if (Builtin.ofName? name).isSome then some .arity else some .unsupported
  | refused fault => fault.kind?

/-- All demands of a list are met. -/
def AllMet (demands : List Demand) : Prop :=
  ∀ ⦃front demand back⦄, demands = front ++ demand :: back → demand.Met front

/-- The first demand of a list that is not met. -/
def FirstUnmet (demands : List Demand) (demand : Demand) : Prop :=
  ∃ front back, demands = front ++ demand :: back ∧ AllMet front ∧ ¬ demand.Met front

theorem allMet_nil : AllMet [] := by
  intro front demand back h
  cases front <;> cases h

theorem AllMet.left {front back : List Demand} (h : AllMet (front ++ back)) : AllMet front := by
  intro first demand rest hfront
  exact h (by rw [hfront, List.append_assoc, List.cons_append])

/-- One more demand. -/
theorem AllMet.snoc {demands : List Demand} {demand : Demand} (h : AllMet demands)
    (hmet : demand.Met demands) : AllMet (demands ++ [demand]) := by
  intro front other back heq
  rcases List.eq_nil_or_concat back with rfl | ⟨back, last, rfl⟩
  · obtain ⟨rfl, hlast⟩ := List.append_inj' heq rfl
    cases hlast
    exact hmet
  · have hall : demands ++ [demand] = (front ++ other :: back) ++ [last] := by
      rw [heq, List.concat_eq_append, List.append_assoc, List.cons_append]
    exact h (List.append_inj' hall rfl).1

/-- A demand that is not met stays so, whatever follows. -/
theorem FirstUnmet.append {demands : List Demand} {demand : Demand} (h : FirstUnmet demands demand)
    (later : List Demand) : FirstUnmet (demands ++ later) demand := by
  obtain ⟨front, back, rfl, hfront, hunmet⟩ := h
  exact ⟨front, back ++ later, by rw [List.append_assoc, List.cons_append], hfront, hunmet⟩

theorem FirstUnmet.not_allMet {demands : List Demand} {demand : Demand}
    (h : FirstUnmet demands demand) : ¬ AllMet demands := by
  obtain ⟨front, back, rfl, -, hunmet⟩ := h
  exact fun hall => hunmet (hall rfl)

/-! ## Names and numbers -/

/-- One more entry of a list that keeps each entry once. -/
theorem eraseDups_concat (l : List String) (x : String) :
    (l ++ [x]).eraseDups = if x ∈ l then l.eraseDups else l.eraseDups ++ [x] := by
  rw [List.eraseDups_append, List.removeAll]
  by_cases hx : x ∈ l
  · simp [hx]
  · simp [hx, List.eraseDups_cons]

theorem names_concat (demands : List Demand) (demand : Demand) :
    names (demands ++ [demand]) =
      match demand.bound? with
      | some name =>
        if name ∈ names demands then names demands else names demands ++ [name]
      | none => names demands := by
  rw [names, names, List.filterMap_append]
  cases hname : demand.bound? with
  | none => simp [hname]
  | some name => simp [hname, eraseDups_concat, List.mem_eraseDups]

theorem texts_concat (demands : List Demand) (demand : Demand) :
    texts (demands ++ [demand]) =
      match demand.text? with
      | some text => if text ∈ texts demands then texts demands else texts demands ++ [text]
      | none => texts demands := by
  rw [texts, texts, List.filterMap_append]
  cases htext : demand.text? with
  | none => simp [htext]
  | some text => simp [htext, eraseDups_concat, List.mem_eraseDups]

theorem mem_names {demands : List Demand} {name : String} :
    name ∈ names demands ↔ binds name ∈ demands := by
  rw [names, List.mem_eraseDups, List.mem_filterMap]
  refine ⟨fun ⟨demand, hmem, hname⟩ => ?_, fun h => ⟨_, h, rfl⟩⟩
  cases demand with
  | binds other =>
    cases hname
    exact hmem
  | _ => cases hname

/-- There are registers for all variables, and numbers for all texts, as long as all demands are
met. -/
theorem AllMet.length_le {demands : List Demand} (h : AllMet demands) :
    (names demands).length ≤ maxRegisters ∧ (texts demands).length ≤ maxConstants := by
  induction demands using List.reverseRecOn with
  | nil => exact ⟨Nat.zero_le _, Nat.zero_le _⟩
  | append_singleton front last ih =>
    obtain ⟨hnames, htexts⟩ := ih h.left
    have hlast : last.Met front := h rfl
    cases last with
    | binds name => exact ⟨hlast, by rwa [texts_concat]⟩
    | quotes text => exact ⟨by rwa [names_concat], hlast⟩
    | _ => exact ⟨by rwa [names_concat], by rwa [texts_concat]⟩

end Demand

/-! ## Targets -/

mutual

/-- The targets of the jumps of a statement that starts at an address, in the order of the code. -/
def Stmt.targets (loopEnd : Option Nat) (base : Nat) : Stmt → List Nat
  | .breaking _ => loopEnd.toList
  | .conditional _ cond body rest =>
    let bodyStart := base + cond.size + 2
    let restStart := bodyStart + Stmt.sizeList body
    (restStart + rest.entry) :: (Stmt.targetsList loopEnd bodyStart body ++
      rest.targets loopEnd (restStart + rest.size) restStart)
  | .loop _ body =>
    Stmt.targetsList (some (base + Stmt.sizeList body + 2)) base body ++ [base]
  | .exprStmt .. | .letDecl .. | .assign .. | .returning .. | .fnDecl .. | .misplaced _ => []

/-- The targets of the jumps of a block that starts at an address. -/
def Stmt.targetsList (loopEnd : Option Nat) (base : Nat) : List Stmt → List Nat
  | [] => []
  | s :: ss => s.targets loopEnd base ++ Stmt.targetsList loopEnd (base + s.size) ss

/-- The targets of the jumps of what follows a block of a conditional that ends at the first address
and is followed by the code at the second. -/
def Chain.targets (loopEnd : Option Nat) (finish base : Nat) : Chain → List Nat
  | .done => []
  | .otherwise body => finish :: Stmt.targetsList loopEnd (base + 2) body
  | .elseIf cond body rest =>
    let bodyStart := base + 2 + cond.size + 2
    let restStart := bodyStart + Stmt.sizeList body
    finish :: (restStart + rest.entry) :: (Stmt.targetsList loopEnd bodyStart body ++
      rest.targets loopEnd finish restStart)

end

/-- The targets of the jumps of a program. -/
def Program.targets (p : Program) : List Nat :=
  Stmt.targetsList none 0 p.items

theorem Chain.entry_le_size (rest : Chain) : rest.entry ≤ rest.size := by
  cases rest with
  | done => exact Nat.le_refl 0
  | otherwise body => exact Nat.le_add_right ..
  | elseIf cond body rest => exact Nat.le_add_right ..

mutual

/-- No jump of a statement leads further than right behind it, but for a `break`. -/
theorem Stmt.target_le : ∀ (s : Stmt) {loopEnd : Option Nat} {base a : Nat},
    a ∈ s.targets loopEnd base → loopEnd = some a ∨ a ≤ base + s.size
  | .breaking pos, loopEnd, base, a, h => .inl (Option.mem_toList.1 h)
  | .conditional pos cond body rest, loopEnd, base, a, h => by
    rw [Stmt.targets] at h
    rw [Stmt.size]
    have hentry := rest.entry_le_size
    rcases List.mem_cons.1 h with rfl | h
    · exact .inr (by omega)
    rcases List.mem_append.1 h with h | h
    · exact (Stmt.targetList_le body h).imp_right fun hle => by omega
    · obtain rfl | hrest := Chain.target_le rest h
      · exact .inr (by omega)
      · exact hrest.imp_right fun hle => by omega
  | .loop pos body, loopEnd, base, a, h => by
    rw [Stmt.targets] at h
    rw [Stmt.size]
    rcases List.mem_append.1 h with h | h
    · obtain hend | hle := Stmt.targetList_le body h
      · exact .inr (by have := Option.some.inj hend; omega)
      · exact .inr (by omega)
    · exact .inr (by have := List.mem_singleton.1 h; omega)
  | .exprStmt .., _, _, _, h | .letDecl .., _, _, _, h | .assign .., _, _, _, h
  | .returning .., _, _, _, h | .fnDecl .., _, _, _, h | .misplaced _, _, _, _, h => by
    rw [Stmt.targets] at h
    cases h

theorem Stmt.targetList_le : ∀ (ss : List Stmt) {loopEnd : Option Nat} {base a : Nat},
    a ∈ Stmt.targetsList loopEnd base ss → loopEnd = some a ∨ a ≤ base + Stmt.sizeList ss
  | [], _, _, _, h => by
    rw [Stmt.targetsList] at h
    cases h
  | s :: ss, loopEnd, base, a, h => by
    rw [Stmt.targetsList] at h
    rw [Stmt.sizeList]
    rcases List.mem_append.1 h with h | h
    · exact (Stmt.target_le s h).imp_right fun hle => by omega
    · exact (Stmt.targetList_le ss h).imp_right fun hle => by omega

theorem Chain.target_le : ∀ (rest : Chain) {loopEnd : Option Nat} {finish base a : Nat},
    a ∈ rest.targets loopEnd finish base → a = finish ∨ loopEnd = some a ∨ a ≤ base + rest.size
  | .done, _, _, _, _, h => by
    rw [Chain.targets] at h
    cases h
  | .otherwise body, loopEnd, finish, base, a, h => by
    rw [Chain.targets] at h
    rw [Chain.size]
    rcases List.mem_cons.1 h with rfl | h
    · exact .inl rfl
    · exact .inr ((Stmt.targetList_le body h).imp_right fun hle => by omega)
  | .elseIf cond body rest, loopEnd, finish, base, a, h => by
    rw [Chain.targets] at h
    rw [Chain.size]
    have hentry := rest.entry_le_size
    rcases List.mem_cons.1 h with rfl | h
    · exact .inl rfl
    rcases List.mem_cons.1 h with rfl | h
    · exact .inr (.inr (by omega))
    rcases List.mem_append.1 h with h | h
    · exact .inr ((Stmt.targetList_le body h).imp_right fun hle => by omega)
    · exact (Chain.target_le rest h).imp_right fun hrest => hrest.imp_right fun hle => by omega

end

/-- No jump of a program leads further than right behind its code. -/
theorem Program.target_le {p : Program} {a : Nat} (h : a ∈ p.targets) :
    a ≤ Stmt.sizeList p.items := by
  obtain hend | hle := Stmt.targetList_le p.items h
  · cases hend
  · rwa [Nat.zero_add] at hle

/-! ## Well-formed programs -/

/-- Whether a literal has a value that a token of an integer, a text or a truth value can have. -/
def literalShaped : Option Scalar → Bool
  | some (.bool _) | some (.int _) | some (.text _) => true
  | _ => false

mutual

/-- Whether an expression is built as the grammar builds it, with no fractional number in it. -/
def Expr.shaped : Expr → Bool
  | .literal _ value => literalShaped value
  | .identifier .. => true
  | .unary _ op operand => (unaryOperators.lookup op).isSome && operand.shaped
  | .binary _ left op right =>
    (binaryOperators.lookup op).isSome && (left.shaped && right.shaped)
  | .call _ _ args => Expr.shapedList args
  | .misplaced _ => false

def Expr.shapedList : List Expr → Bool
  | [] => true
  | e :: es => e.shaped && Expr.shapedList es

end

mutual

/-- Whether a statement is built as the grammar builds it, with no fractional number in it.  The
body of a function is never laid out, so it may be anything. -/
def Stmt.shaped : Stmt → Bool
  | .exprStmt _ e | .letDecl _ _ e | .assign _ _ e | .returning _ (some e) => e.shaped
  | .returning _ none | .breaking _ | .fnDecl .. => true
  | .conditional _ cond body rest => cond.shaped && (Stmt.shapedList body && rest.shaped)
  | .loop _ body => Stmt.shapedList body
  | .misplaced _ => false

def Stmt.shapedList : List Stmt → Bool
  | [] => true
  | s :: ss => s.shaped && Stmt.shapedList ss

def Chain.shaped : Chain → Bool
  | .done => true
  | .otherwise body => Stmt.shapedList body
  | .elseIf cond body rest => cond.shaped && (Stmt.shapedList body && rest.shaped)

end

theorem refused_notMem_literalDemands {value : Option Scalar} (h : literalShaped value = true)
    (fault : CompileFault) : .refused fault ∉ literalDemands value := by
  match value with
  | some (.bool b) => exact List.not_mem_nil
  | some (.int n) => simp [literalDemands]
  | some (.text s) => simp [literalDemands]
  | some (.real x) => cases h
  | none => cases h

theorem operatorDemands_of_isSome {operators : List (String × Opcode)} {op : String}
    (h : (operators.lookup op).isSome = true) (fault : CompileFault) :
    operatorDemands operators op fault = [] :=
  if_pos h

mutual

/-- What the grammar builds is not refused for what it is. -/
theorem Expr.refused_notMem (fault : CompileFault) : ∀ {e : Expr}, e.shaped = true →
    .refused fault ∉ e.demands
  | .literal pos value, h => by
    rw [Expr.demands]
    exact refused_notMem_literalDemands h fault
  | .identifier pos name, h => by
    rw [Expr.demands]
    simp
  | .unary pos op operand, h => by
    rw [Expr.shaped, Bool.and_eq_true] at h
    rw [Expr.demands, operatorDemands_of_isSome h.1, List.append_nil]
    split
    · exact List.not_mem_nil
    · exact Expr.refused_notMem fault h.2
  | .binary pos left op right, h => by
    rw [Expr.shaped, Bool.and_eq_true, Bool.and_eq_true] at h
    rw [Expr.demands, operatorDemands_of_isSome h.1, List.nil_append, List.mem_append]
    exact not_or.2 ⟨Expr.refused_notMem fault h.2.1, Expr.refused_notMem fault h.2.2⟩
  | .call pos name args, h => by
    rw [Expr.shaped] at h
    rw [Expr.demands, List.mem_cons]
    exact not_or.2 ⟨nofun, Expr.refused_notMemList fault h⟩

theorem Expr.refused_notMemList (fault : CompileFault) : ∀ {es : List Expr},
    Expr.shapedList es = true → .refused fault ∉ Expr.demandsList es
  | [], _ => List.not_mem_nil
  | e :: es, h => by
    rw [Expr.shapedList, Bool.and_eq_true] at h
    rw [Expr.demandsList, List.mem_append]
    exact not_or.2 ⟨Expr.refused_notMem fault h.1, Expr.refused_notMemList fault h.2⟩

end

mutual

theorem Stmt.refused_notMem (fault : CompileFault) : ∀ {inLoop : Bool} {s : Stmt},
    s.shaped = true → .refused fault ∉ s.demands inLoop
  | _, .exprStmt pos e, h => by
    rw [Stmt.shaped] at h
    rw [Stmt.demands]
    exact Expr.refused_notMem fault h
  | _, .letDecl pos name value, h => by
    rw [Stmt.shaped] at h
    rw [Stmt.demands, List.mem_append, List.mem_singleton]
    exact not_or.2 ⟨Expr.refused_notMem fault h, nofun⟩
  | _, .assign pos name value, h => by
    rw [Stmt.shaped] at h
    rw [Stmt.demands, List.mem_cons]
    exact not_or.2 ⟨nofun, Expr.refused_notMem fault h⟩
  | _, .returning pos none, _ => by
    rw [Stmt.demands]
    exact List.not_mem_nil
  | _, .returning pos (some value), h => by
    rw [Stmt.shaped] at h
    rw [Stmt.demands]
    exact Expr.refused_notMem fault h
  | _, .breaking pos, _ => by
    rw [Stmt.demands]
    simp
  | _, .conditional pos cond body rest, h => by
    rw [Stmt.shaped, Bool.and_eq_true, Bool.and_eq_true] at h
    rw [Stmt.demands, List.mem_append, List.mem_append]
    exact not_or.2 ⟨Expr.refused_notMem fault h.1,
      not_or.2 ⟨Stmt.refused_notMemList fault h.2.1, Chain.refused_notMem fault h.2.2⟩⟩
  | _, .loop pos body, h => by
    rw [Stmt.shaped] at h
    rw [Stmt.demands]
    exact Stmt.refused_notMemList fault h
  | _, .fnDecl pos name params body, _ => by
    rw [Stmt.demands]
    simp

theorem Stmt.refused_notMemList (fault : CompileFault) : ∀ {inLoop : Bool} {ss : List Stmt},
    Stmt.shapedList ss = true → .refused fault ∉ Stmt.demandsList inLoop ss
  | _, [], _ => List.not_mem_nil
  | _, s :: ss, h => by
    rw [Stmt.shapedList, Bool.and_eq_true] at h
    rw [Stmt.demandsList, List.mem_append]
    exact not_or.2 ⟨Stmt.refused_notMem fault h.1, Stmt.refused_notMemList fault h.2⟩

theorem Chain.refused_notMem (fault : CompileFault) : ∀ {inLoop : Bool} {rest : Chain},
    rest.shaped = true → .refused fault ∉ rest.demands inLoop
  | _, .done, _ => List.not_mem_nil
  | _, .otherwise body, h => by
    rw [Chain.shaped] at h
    rw [Chain.demands]
    exact Stmt.refused_notMemList fault h
  | _, .elseIf cond body rest, h => by
    rw [Chain.shaped, Bool.and_eq_true, Bool.and_eq_true] at h
    rw [Chain.demands, List.mem_append, List.mem_append]
    exact not_or.2 ⟨Expr.refused_notMem fault h.1,
      not_or.2 ⟨Stmt.refused_notMemList fault h.2.1, Chain.refused_notMem fault h.2.2⟩⟩

end

namespace Program

open Demand

end Program

end Octet
