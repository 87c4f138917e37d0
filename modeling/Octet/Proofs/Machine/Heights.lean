import Octet.Proofs.Machine.Failures

/-!
# How high the stack is along instructions

How high the stack is at an address cannot be said in general: an expression that stands as a
statement leaves its value behind, and in a loop the values pile up.  What can be said is how the
instructions of a part change the height, and that they find their operands whatever the height was
in front of the part.

`Carries tight h is k` says that the instructions, one after the other, lead from the height `h` to
the height `k` and never take more than there is.  If it is not `tight`, the heights are lower
bounds: what is left over at the end is forgotten, and finding more than expected does no harm
(`Carries.more`).  If it is `tight` the heights are exact, and in addition every jump is taken from
the height zero.

## Openings

A part of a program carries from zero to zero, and so do the parts it consists of.  Hence it can be
cut in two at many addresses, such that both pieces carry from zero to zero: the `Opens` of the
part.  A part is `Level` if its jumps lead to such addresses, or to certain places outside.
-/

namespace Octet

open Code

/-- Where an instruction goes on unless it goes on behind itself. -/
def Instr.target? : Instr → Option Nat
  | .jump a | .jumpIfFalse a => some a.toNat
  | _ => none

theorem Instr.Refers.of_target {t : Tables} {target : Nat → Prop} {i : Instr} {a : Nat}
    (h : i.Refers t target) (ha : i.target? = some a) : target a := by
  cases i with
  | jump b | jumpIfFalse b =>
    cases ha
    exact h
  | _ => cases ha

/-- The registers that an instruction writes. -/
def Instr.stores : Instr → List UInt8
  | .storeRegister r => [r]
  | _ => []

/-- The height of the stack behind an instruction, given the height in front of it.  A `ret` takes a
value if there is one. -/
def Instr.heightAfter (h : Nat) : Instr → Nat
  | .ret => h - 1
  | i => h - i.pops + i.pushes.toNat

theorem Instr.heightAfter_mono {h k : Nat} (hle : h ≤ k) (i : Instr) :
    i.heightAfter h ≤ i.heightAfter k := by
  cases i with
  | ret => exact Nat.sub_le_sub_right hle 1
  | _ => exact Nat.add_le_add_right (Nat.sub_le_sub_right hle _) _

theorem Instr.heightAfter_of_ne_ret (h : Nat) {i : Instr} (hi : i ≠ .ret) :
    i.heightAfter h = h - i.pops + i.pushes.toNat := by
  cases i with
  | ret => exact absurd rfl hi
  | _ => rfl

theorem Instr.heightAfter_of_pushes (h : Nat) {i : Instr} (hi : i.pushes = true) :
    i.heightAfter h = h - i.pops + 1 := by
  have hret : i ≠ .ret := fun hret => by rw [hret] at hi; cases hi
  rw [heightAfter_of_ne_ret h hret, hi, Bool.toNat_true]

/-- An instruction takes at most one value more than it leaves. -/
theorem Instr.le_heightAfter (h : Nat) (i : Instr) : h ≤ i.heightAfter h + 1 := by
  cases i with
  | callBuiltin id =>
    have hpops : (Instr.callBuiltin id).pops ≤ 1 := by
      rw [Instr.pops]
      cases Builtin.ofId? id.toNat with
      | none => exact Nat.zero_le 1
      | some b => cases b <;> decide
    show h ≤ h - (Instr.callBuiltin id).pops + 0 + 1
    omega
  | ret =>
    show h ≤ h - 1 + 1
    omega
  | pushInt | pushBool | loadConstant | loadRegister =>
    show h ≤ h - 0 + 1 + 1
    omega
  | arith | order | equality | logic =>
    show h ≤ h - 2 + 1 + 1
    omega
  | neg | not =>
    show h ≤ h - 1 + 1 + 1
    omega
  | storeRegister | jumpIfFalse =>
    show h ≤ h - 1 + 0 + 1
    omega
  | jump =>
    show h ≤ h - 0 + 0 + 1
    omega

/-- Instructions lead from one height of the stack to another one and find their operands. -/
def Carries (tight : Bool) : Nat → List Instr → Nat → Prop
  | h, [], k => k ≤ h ∧ (tight = true → h = k)
  | h, i :: is, k => i.pops ≤ h ∧ (tight = true → i.target?.isSome → i.heightAfter h = 0) ∧
      Carries tight (i.heightAfter h) is k

section

variable {tight : Bool} {h k l : Nat} {is js : List Instr}

theorem carries_nil (tight : Bool) (h : Nat) : Carries tight h [] h :=
  ⟨Nat.le_refl h, fun _ => rfl⟩

theorem carries_single {i : Instr} (hpops : i.pops ≤ h) (hafter : i.heightAfter h = k)
    (hjump : i.target?.isSome → k = 0) : Carries tight h [i] k :=
  ⟨hpops, fun _ hi => hafter.trans (hjump hi), Nat.le_of_eq hafter.symm, fun _ => hafter⟩

/-- A higher stack than expected does no harm, and what is left over may be forgotten. -/
theorem Carries.more {h' k' : Nat} (hcarries : Carries false h is k) (hle : h ≤ h')
    (hle' : k' ≤ k) : Carries false h' is k' := by
  induction is generalizing h h' with
  | nil => exact ⟨Nat.le_trans hle' (Nat.le_trans hcarries.1 hle), nofun⟩
  | cons i is ih =>
    exact ⟨Nat.le_trans hcarries.1 hle, nofun, ih hcarries.2.2 (i.heightAfter_mono hle)⟩

theorem Carries.append (hfirst : Carries tight h is k) (hsecond : Carries tight k js l) :
    Carries tight h (is ++ js) l := by
  induction is generalizing h with
  | nil =>
    cases tight with
    | true =>
      obtain rfl := hfirst.2 rfl
      exact hsecond
    | false => exact hsecond.more hfirst.1 (Nat.le_refl l)
  | cons i is ih => exact ⟨hfirst.1, hfirst.2.1, ih hfirst.2.2⟩

/-- Exact heights are determined by the height at the beginning. -/
theorem Carries.unique (hfirst : Carries true h is k) (hsecond : Carries true h is l) : k = l := by
  induction is generalizing h with
  | nil => exact (hfirst.2 rfl).symm.trans (hsecond.2 rfl)
  | cons i is ih => exact ih hfirst.2.2 hsecond.2.2

/-- Every instruction takes the stack down by at most one. -/
theorem Carries.le_length (hcarries : Carries true h is k) : h ≤ k + is.length := by
  induction is generalizing h with
  | nil => exact Nat.le_of_eq (hcarries.2 rfl)
  | cons i is ih =>
    have hrest := ih hcarries.2.2
    have hone := i.le_heightAfter h
    rw [List.length_cons]
    omega

end

theorem length_le_size (is : List Instr) : is.length ≤ Code.size is := by
  induction is with
  | nil => exact Nat.le_refl 0
  | cons i is ih =>
    have hpos := i.size_pos
    rw [List.length_cons, size_cons]
    omega

theorem eq_nil_of_size {is : List Instr} (h : Code.size is = 0) : is = [] := by
  have hlength := length_le_size is
  exact List.eq_nil_of_length_eq_zero (by omega)

/-- The same instructions cut in two at the same place. -/
theorem front_eq_of_size {front front' back back' : List Instr}
    (h : front ++ back = front' ++ back') (hsize : Code.size front = Code.size front') :
    front = front' := by
  rcases List.append_eq_append_iff.1 h with ⟨between, rfl, -⟩ | ⟨between, rfl, -⟩
  · rw [size_append] at hsize
    have hbetween : between = [] := eq_nil_of_size (by omega)
    rw [hbetween, List.append_nil]
  · rw [size_append] at hsize
    have hbetween : between = [] := eq_nil_of_size (by omega)
    rw [hbetween, List.append_nil]

/-! ## Openings -/

/-- An address cuts a part that starts at `base` in two, and both pieces carry from zero to zero. -/
def Opens (tight : Bool) (base : Nat) (is : List Instr) (a : Nat) : Prop :=
  ∃ front back, is = front ++ back ∧ a = base + Code.size front ∧ Carries tight 0 front 0 ∧
    Carries tight 0 back 0

section

variable {tight : Bool} {base a : Nat} {is js : List Instr}

theorem opens_base (h : Carries tight 0 is 0) : Opens tight base is base :=
  ⟨[], is, rfl, rfl, carries_nil tight 0, h⟩

theorem opens_end (h : Carries tight 0 is 0) : Opens tight base is (base + Code.size is) :=
  ⟨is, [], (List.append_nil is).symm, rfl, h, carries_nil tight 0⟩

theorem Opens.left (h : Opens tight base is a) (hjs : Carries tight 0 js 0) :
    Opens tight base (is ++ js) a := by
  obtain ⟨front, back, rfl, ha, hfront, hback⟩ := h
  exact ⟨front, back ++ js, List.append_assoc .., ha, hfront, hback.append hjs⟩

theorem Opens.right (h : Opens tight (base + Code.size is) js a) (his : Carries tight 0 is 0) :
    Opens tight base (is ++ js) a := by
  obtain ⟨front, back, rfl, ha, hfront, hback⟩ := h
  refine ⟨is ++ front, back, (List.append_assoc ..).symm, ?_, his.append hfront, hback⟩
  rw [ha, size_append, Nat.add_assoc]

end

/-- A part carries from zero to zero, its jumps lead to openings of the part or to certain places
outside, and some addresses are openings. -/
structure Level (tight : Bool) (outside : Nat → Prop) (base : Nat) (is : List Instr)
    (inside : List Nat) : Prop where
  carries : Carries tight 0 is 0
  targets : ∀ i ∈ is, ∀ a, i.target? = some a → outside a ∨ Opens tight base is a
  inside : ∀ a ∈ inside, Opens tight base is a

namespace Level

variable {tight : Bool} {outside outside' : Nat → Prop} {base : Nat} {is js : List Instr}
  {inside inside' : List Nat}

theorem nil (tight : Bool) (outside : Nat → Prop) (base : Nat) : Level tight outside base [] [] :=
  ⟨carries_nil tight 0, fun _ hi => absurd hi List.not_mem_nil,
    fun _ ha => absurd ha List.not_mem_nil⟩

/-- Places outside that are openings need not be mentioned. -/
theorem close (h : Level tight outside base is inside)
    (hsub : ∀ a, outside a → outside' a ∨ Opens tight base is a) :
    Level tight outside' base is inside :=
  ⟨h.carries, fun i hi a ha => (h.targets i hi a ha).elim (hsub a) .inr, h.inside⟩

theorem append {start : Nat} (h : Level tight outside base is inside)
    (h' : Level tight outside start js inside') (hstart : start = base + Code.size is) :
    Level tight outside base (is ++ js) (inside ++ inside') := by
  subst hstart
  refine ⟨h.carries.append h'.carries, fun i hi a ha => ?_, fun a ha => ?_⟩
  · rcases List.mem_append.1 hi with hi | hi
    · exact (h.targets i hi a ha).imp_right fun hopen => hopen.left h'.carries
    · exact (h'.targets i hi a ha).imp_right fun hopen => hopen.right h.carries
  · rcases List.mem_append.1 ha with ha | ha
    · exact (h.inside a ha).left h'.carries
    · exact (h'.inside a ha).right h.carries

/-- The beginning of a part is an opening. -/
theorem cons (h : Level tight outside base is inside) :
    Level tight outside base is (base :: inside) := by
  refine ⟨h.carries, h.targets, fun a ha => ?_⟩
  rcases List.mem_cons.1 ha with rfl | ha
  · exact opens_base h.carries
  · exact h.inside a ha

end Level

/-! ## Values -/

/-- Instructions that are no jumps and leave so many values on the stack. -/
structure Yields (tight : Bool) (is : List Instr) (values : Nat) : Prop where
  carries : ∀ h, Carries tight h is (h + values)
  straight : ∀ i ∈ is, i.target? = none

namespace Yields

variable {tight : Bool} {is js : List Instr} {m n : Nat}

theorem nil (tight : Bool) : Yields tight [] 0 :=
  ⟨carries_nil tight, fun _ hi => absurd hi List.not_mem_nil⟩

theorem append (h : Yields tight is m) (h' : Yields tight js n) :
    Yields tight (is ++ js) (m + n) := by
  refine ⟨fun k => ?_, fun i hi => ?_⟩
  · rw [← Nat.add_assoc]
    exact (h.carries k).append (h'.carries (k + m))
  · exact (List.mem_append.1 hi).elim (h.straight i) (h'.straight i)

/-- An instruction that puts a value on the stack. -/
theorem single {i : Instr} (hpops : i.pops = 0) (hpushes : i.pushes = true)
    (htarget : i.target? = none) : Yields tight [i] 1 := by
  refine ⟨fun k => ?_, fun j hj => by rw [List.mem_singleton.1 hj, htarget]⟩
  refine carries_single (by omega) ?_ (by rw [htarget]; exact nofun)
  rw [Instr.heightAfter_of_pushes _ hpushes, hpops, Nat.sub_zero]

end Yields

/-- Values, and an instruction that takes all of them and leaves nothing. -/
theorem Level.consumed {tight : Bool} {outside : Nat → Prop} {base values : Nat}
    {is : List Instr} {i : Instr} (h : Yields tight is values) (hpops : i.pops ≤ values)
    (hafter : i.heightAfter values = 0) (hi : ∀ a, i.target? = some a → outside a) :
    Level tight outside base (is ++ [i]) [] := by
  have hvalues : Carries tight 0 is values := Nat.zero_add values ▸ h.carries 0
  refine ⟨hvalues.append (carries_single hpops hafter fun _ => rfl), fun j hj a ha => ?_,
    fun _ ha => absurd ha List.not_mem_nil⟩
  rcases List.mem_append.1 hj with hj | hj
  · rw [h.straight j hj] at ha
    cases ha
  · rw [List.mem_singleton.1 hj] at ha
    exact .inl (hi a ha)

end Octet
