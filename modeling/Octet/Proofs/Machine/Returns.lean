import Octet.Proofs.Machine.Host

/-!
# What a run returns

A machine that performs a `ret` takes the value on top of its stack for its result, if there is one,
and halts.  A run then answers what this value stands for: a number or a truth value as it is, and a
text by its characters.  For the text the pool has to have one of that number, as it has for every
value of a machine that was reached (`Reachable.sound`), and then nothing is returned from an empty
stack only.
-/

namespace Octet

open Code Effect

/-- What a value stands for, a text being looked up by its number. -/
def Value.scalar? (constants : List String) : Value → Option Scalar
  | .i32 n => some (.int n)
  | .bool b => some (.bool b)
  | .str k => constants[k]?.map .text

theorem Value.isSome_scalar? {constants : List String} {v : Value}
    (h : v.Valid constants.length) : (v.scalar? constants).isSome := by
  cases v with
  | i32 n => rfl
  | bool b => rfl
  | str k =>
    have hk : k < constants.length := h
    rw [scalar?, List.getElem?_eq_getElem hk]
    rfl

/-- What a `ret` returns: what the value on top of the stack stands for, if there is one. -/
def State.returns (constants : List String) (s : State) : Option Scalar :=
  s.stack.head?.bind (·.scalar? constants)

theorem State.returns_of_nil {constants : List String} {s : State} (h : s.stack = []) :
    s.returns constants = none := by
  rw [returns, h]
  rfl

/-- A machine whose values make sense returns nothing only from an empty stack. -/
theorem State.returns_eq_none_iff {constants : List String} {s : State}
    (hvalid : ∀ v ∈ s.stack, v.Valid constants.length) :
    s.returns constants = none ↔ s.stack = [] := by
  refine ⟨fun h => ?_, returns_of_nil⟩
  cases hstack : s.stack with
  | nil => rfl
  | cons v rest =>
    have hsome := Value.isSome_scalar? (hvalid v (hstack ▸ List.mem_cons_self ..))
    rw [returns, hstack] at h
    rw [show v.scalar? constants = none from h] at hsome
    cases hsome

namespace Machine

variable {setup : Setup} {s s' : State}

/-- The result of a machine that has halted, if a text in it is in the pool. -/
theorem perform_resultValue (h : ∀ v, s.result = some v → v.Valid setup.image.constants.length) :
    resultValue.perform setup s =
      (.ok (s.result.bind (·.scalar? setup.image.constants)), s) := by
  rw [resultValue, perform_get_bind]
  cases hresult : s.result with
  | none => rfl
  | some v =>
    cases v with
    | i32 n => rfl
    | bool b => rfl
    | str k =>
      have hk : k < setup.image.constants.length := h _ hresult
      show (do return some (.text (← constant k)) : Effect (Option Scalar)).perform setup s = _
      rw [perform_bind, perform_constant, List.getElem?_eq_getElem hk, Option.bind_some,
        Value.scalar?, List.getElem?_eq_getElem hk]
      rfl

/-- **A run that comes to a `ret` ends there**, and its answer is what was on top of the stack. -/
theorem runFor_of_ret (hrunning : s.halted = false) (hgoing : s.stopRequested = false)
    (hfetch : fetch? setup.image.code s.ip = some .ret)
    (hvalid : ∀ v ∈ s.stack, v.Valid setup.image.constants.length) :
    ∃ s', ∀ n, (runFor BuiltinTable.standard (n + 1)).perform setup s =
      (.ok (.finished (s.returns setup.image.constants)), s') := by
  obtain ⟨s', hstep, hhalted, hresult⟩ : ∃ s',
      (step BuiltinTable.standard).perform setup s = (.ok false, s') ∧ s'.halted = true ∧
        s'.result = s.stack.head? := by
    rw [step_of_fetch hrunning hgoing hfetch, perform_bind]
    show ∃ s', settle.perform setup { begun .ret s with
      stack := s.stack.tail, result := s.stack.head?, halted := true } = (.ok false, s') ∧ _
    rw [perform_settle, settled]
    split
    · exact ⟨_, rfl, rfl, rfl⟩
    · exact ⟨_, rfl, rfl, rfl⟩
  refine ⟨s', fun n => ?_⟩
  have hanswer : resultValue.perform setup s' =
      (.ok (s.returns setup.image.constants), s') := by
    rw [State.returns, ← hresult]
    refine perform_resultValue fun v hv => hvalid v (List.mem_of_mem_head? ?_)
    rw [← hresult, hv]
    exact rfl
  rw [runFor_succ_of_running n hrunning, hstep]
  dsimp only
  rw [runFor_of_halted n hhalted, perform_bind, hanswer]
  rfl

end Machine
end Octet
