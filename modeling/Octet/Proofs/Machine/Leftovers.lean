import Octet.Proofs.Machine.Movement
import Octet.Proofs.Machine.StackCount

/-!
# What earlier statements have left on the stack

A `ret` takes the value on top of the stack, and it cannot know whether an expression in front of it
has put it there or a statement before has left it behind.  Where it should take none, the stack has
to be empty, and whether it is depends on how the machine got there.

As with registers the ways are cut off.  `FindsEmpty code avoided marked n a h` looks at the code
alone and says: from the address `a`, with `h` values on the stack or fewer, each `ret` at a marked
address that is among the next `n` instructions finds the stack empty, whichever way they go.  A way
that comes to an avoided address is not followed any further.  The numbers of values are bounds, so
it does not matter whether an instruction succeeds: one that fails leaves no more on the stack than
one that succeeds.

A machine of which this holds for every number of instructions can make a step, also one that fails,
and it holds again (`step_leavesNothing`).  So it holds of every state to which the machine gets
without beginning an instruction at an avoided address, however often a host takes it up again after
a failure (`Bypasses.leavesNothing`).
-/

namespace Octet

open Code Effect

/-- The height of the stack behind instructions, given the height in front of them. -/
def heightBehind (h : Nat) (is : List Instr) : Nat :=
  is.foldl (fun h i => i.heightAfter h) h

theorem heightBehind_append (h : Nat) (is js : List Instr) :
    heightBehind h (is ++ js) = heightBehind (heightBehind h is) js :=
  List.foldl_append

/-- Whichever way the next instructions from an address go, with no more than so many values on the
stack, each `ret` at a marked address finds it empty.  Where they come to an avoided address the way
ends. -/
def FindsEmpty (code : List UInt8) (avoided marked : Nat → Prop) : Nat → Nat → Nat → Prop
  | 0, _, _ => True
  | n + 1, a, h => avoided a ∨ ∀ i, fetch? code a = some i →
      (i = .ret → marked a → h = 0) ∧
      FindsEmpty code avoided marked n (a + i.size) (i.heightAfter h) ∧
      ∀ t, i.target? = some t → FindsEmpty code avoided marked n t (i.heightAfter h)

namespace FindsEmpty

variable {code : List UInt8} {avoided marked : Nat → Prop} {n a h k : Nat}

theorem of_avoided (ha : avoided a) : FindsEmpty code avoided marked n a h := by
  cases n with
  | zero => trivial
  | succ n => exact .inl ha

/-- A lower stack does no harm. -/
theorem mono (hempty : FindsEmpty code avoided marked n a h) (hle : k ≤ h) :
    FindsEmpty code avoided marked n a k := by
  induction n generalizing a h k with
  | zero => trivial
  | succ n ih =>
    refine hempty.imp_right fun hways i hi => ?_
    obtain ⟨hmarked, hnext, htarget⟩ := hways i hi
    refine ⟨fun hret ha => ?_, ih hnext (i.heightAfter_mono hle), fun t ht => ?_⟩
    · have hzero := hmarked hret ha
      omega
    · exact ih (htarget t ht) (i.heightAfter_mono hle)

/-- Fewer instructions come to fewer addresses. -/
theorem fewer (hempty : FindsEmpty code avoided marked (n + 1) a h) :
    FindsEmpty code avoided marked n a h := by
  induction n generalizing a h with
  | zero => trivial
  | succ n ih =>
    refine hempty.imp_right fun hways i hi => ?_
    obtain ⟨hmarked, hnext, htarget⟩ := hways i hi
    exact ⟨hmarked, ih hnext, fun t ht => ih (htarget t ht)⟩

/-- One instruction in front of others, which is counted. -/
theorem step {i : Instr} (hi : fetch? code a = some i) (hmarked : i = .ret → marked a → h = 0)
    (hnext : FindsEmpty code avoided marked n (a + i.size) (i.heightAfter h))
    (htarget : ∀ t, i.target? = some t → FindsEmpty code avoided marked n t (i.heightAfter h)) :
    FindsEmpty code avoided marked (n + 1) a h := by
  refine .inr fun j hj => ?_
  rw [hi] at hj
  cases hj
  exact ⟨hmarked, hnext, htarget⟩

/-- One instruction in front of others. -/
theorem cons {i : Instr} (hi : fetch? code a = some i) (hmarked : i = .ret → marked a → h = 0)
    (hnext : FindsEmpty code avoided marked n (a + i.size) (i.heightAfter h))
    (htarget : ∀ t, i.target? = some t → FindsEmpty code avoided marked n t (i.heightAfter h)) :
    FindsEmpty code avoided marked n a h :=
  (step hi hmarked hnext htarget).fewer

/-- Where the code has ended nothing comes. -/
theorem of_end (code : List UInt8) (avoided marked : Nat → Prop) (n h : Nat) :
    FindsEmpty code avoided marked n code.length h := by
  cases n with
  | zero => trivial
  | succ n =>
    refine .inr fun i hi => ?_
    exact absurd (lt_of_fetch? hi) (Nat.lt_irrefl _)

/-- Instructions that go on behind themselves in front of others. -/
theorem straight {is : List Instr} (hplaced : Placed code a is)
    (his : ∀ i ∈ is, i.target? = none ∧ i ≠ .ret)
    (hnext : FindsEmpty code avoided marked n (a + Code.size is) (heightBehind h is)) :
    FindsEmpty code avoided marked n a h := by
  induction is generalizing a h with
  | nil => exact hnext
  | cons i is ih =>
    obtain ⟨htarget, hret⟩ := his i (List.mem_cons_self ..)
    rw [size_cons, ← Nat.add_assoc] at hnext
    refine .cons (fetch?_of_placed hplaced) (fun hi => absurd hi hret) ?_ fun t ht => ?_
    · exact ih (placed_tail hplaced) (fun j hj => his j (List.mem_cons_of_mem i hj)) hnext
    · rw [htarget] at ht
      cases ht

end FindsEmpty

namespace Machine

variable {setup : Setup} {avoided marked : Nat → Prop} {s s' : State}

/-! ## Steps -/

/-- However far the machine goes, each `ret` at a marked address finds the stack empty, unless the
machine comes to an avoided address first. -/
def LeavesNothing (setup : Setup) (avoided marked : Nat → Prop) (s : State) : Prop :=
  ∀ n, FindsEmpty setup.image.code avoided marked n s.ip s.stack.length

/-- What matters is where the pointer is and how high the stack is. -/
theorem LeavesNothing.congr (h : LeavesNothing setup avoided marked s) (hip : s'.ip = s.ip)
    (hstack : s'.stack = s.stack) : LeavesNothing setup avoided marked s' := by
  rw [LeavesNothing, hip, hstack]
  exact h

/-- Behind an instruction, whether it has succeeded or failed. -/
theorem LeavesNothing.next {i : Instr} (h : LeavesNothing setup avoided marked s)
    (hip : ¬ avoided s.ip) (hfetch : fetch? setup.image.code s.ip = some i)
    (hgoesOn : s'.ip = s.ip + i.size ∨ i.target? = some s'.ip)
    (hstack : s'.stack.length ≤ i.heightAfter s.stack.length) :
    LeavesNothing setup avoided marked s' := by
  intro n
  obtain ⟨-, hnext, htarget⟩ := (h (n + 1)).resolve_left hip i hfetch
  rcases hgoesOn with hgoesOn | hjump
  · rw [hgoesOn]
    exact hnext.mono hstack
  · exact (htarget _ hjump).mono hstack

/-- **A step leaves nothing on the stack that would be found there**, whether it succeeds or fails,
unless it begins an instruction at an avoided address. -/
theorem step_leavesNothing : Ensures setup
    (fun s => LeavesNothing setup avoided marked s ∧ (s.halted = false → ¬ avoided s.ip))
    (step BuiltinTable.standard) (fun _ => LeavesNothing setup avoided marked)
    fun _ => LeavesNothing setup avoided marked := by
  rintro s ⟨hs, hip⟩
  have hexecute : ∀ i, Ensures setup (begun i s = ·) (execute BuiltinTable.standard i)
      (fun _ s' => i.Leads (begun i s) s') (i.Gives setup (begun i s)) := fun i => execute_leads i
  generalize hstep : (step BuiltinTable.standard).perform setup s = stepped
  obtain ⟨r, s'⟩ := stepped
  cases way_of_step hstep with
  | idle _ => exact hs.congr rfl rfl
  | stopped _ _ _ => exact hs
  | unreadable _ _ _ => exact hs.congr rfl rfl
  | @performed i s₁ hrunning hfetch hperformed =>
    have hleads := hexecute i (begun i s) rfl
    have hheight := execute_stack_le setup i (begun i s) _ rfl
    rw [hperformed] at hleads hheight
    have hnext : LeavesNothing setup avoided marked s₁ :=
      hs.next (hip hrunning) hfetch hleads.ip hheight
    exact hnext.congr (settled_ip s₁) (settled_stack s₁)
  | @failed i e s' hrunning hfetch hfailed =>
    have hgives := hexecute i (begun i s) rfl
    have hheight := execute_stack_le setup i (begun i s) _ rfl
    rw [hfailed] at hgives hheight
    exact hs.next (hip hrunning) hfetch (.inl hgives.still.ip) hheight

/-! ## Ways -/

/-- A machine gets from the start to this state, and never begins an instruction at an avoided
address on its way.  Steps may fail, and a stop may be requested at any time. -/
inductive Bypasses (setup : Setup) (avoided : Nat → Prop) : State → Prop
  | start : Bypasses setup avoided {}
  | step {s s' : State} {r : Except MachineError Bool} (h : Bypasses setup avoided s)
      (hip : s.halted = false → ¬ avoided s.ip)
      (hstep : (Machine.step BuiltinTable.standard).perform setup s = (r, s')) :
      Bypasses setup avoided s'
  | requestStop {s : State} (h : Bypasses setup avoided s) :
      Bypasses setup avoided { s with stopRequested := true }

/-- What holds at the start holds as long as the machine comes to no avoided address. -/
theorem Bypasses.leavesNothing (hstart : LeavesNothing setup avoided marked {})
    (h : Bypasses setup avoided s) : LeavesNothing setup avoided marked s := by
  induction h with
  | start => exact hstart
  | @step s s' r _ hip hstep ih =>
    have hkeeps := step_leavesNothing s ⟨ih, hip⟩
    rw [hstep] at hkeeps
    cases r with
    | ok goesOn => exact hkeeps
    | error e => exact hkeeps
  | requestStop _ ih => exact ih.congr rfl rfl

/-- At a `ret` that is marked nothing is left on the stack. -/
theorem LeavesNothing.stack_eq_nil (h : LeavesNothing setup avoided marked s)
    (hip : ¬ avoided s.ip) (hfetch : fetch? setup.image.code s.ip = some .ret)
    (hmarked : marked s.ip) : s.stack = [] :=
  List.eq_nil_of_length_eq_zero (((h 1).resolve_left hip .ret hfetch).1 rfl hmarked)

end Machine

end Octet
