import Octet.Proofs.Instr.Encoding

/-!
# Code as instructions with addresses

A string of bytes says nowhere where its instructions start.  Reading it from the
front does: the first instruction starts at the first byte, and each further one
where the one before it ends.  `Code.listing?` is the outcome of that reading, the
instructions with their addresses; there is none if a byte starts no instruction
or the last instruction is cut short, so a listing covers the code exactly.

The machine does not read code from the front.  It reads one instruction wherever
its pointer stands, `Code.fetch?`, and nothing in the bytes keeps the pointer from
standing inside an instruction.  The two agree on every address of the listing
(`Code.fetch?_of_mem_listing?`), and what follows an instruction of the listing is
again an address of the listing, or the end of the code (`Code.boundary_next`).

`Code.Placed` says that a list of instructions is spelled somewhere in the code.
Unlike the listing it says nothing about the bytes around that place, so it splits
along the list (`Code.placed_append`) and is what statements about a part of a
program start from.
-/

namespace Octet
namespace Code

/-- The bytes that spell instructions one after the other. -/
def assemble (is : List Instr) : List UInt8 :=
  is.flatMap Instr.bytes

/-- The number of bytes that spell instructions. -/
def size : List Instr → Nat
  | [] => 0
  | i :: is => i.size + size is

@[simp] theorem assemble_nil : assemble [] = [] := rfl

@[simp] theorem assemble_cons (i : Instr) (is : List Instr) :
    assemble (i :: is) = i.bytes ++ assemble is := rfl

@[simp] theorem assemble_append (is js : List Instr) :
    assemble (is ++ js) = assemble is ++ assemble js :=
  List.flatMap_append

@[simp] theorem size_nil : size [] = 0 := rfl

@[simp] theorem size_cons (i : Instr) (is : List Instr) :
    size (i :: is) = i.size + size is := rfl

@[simp] theorem size_append (is js : List Instr) : size (is ++ js) = size is + size js := by
  induction is with
  | nil => rw [List.nil_append, size_nil, Nat.zero_add]
  | cons i is ih => rw [List.cons_append, size_cons, ih, size_cons, Nat.add_assoc]

@[simp] theorem length_assemble (is : List Instr) : (assemble is).length = size is := by
  induction is with
  | nil => rfl
  | cons i is ih => rw [assemble_cons, List.length_append, Instr.length_bytes, ih, size_cons]

/-! ## One instruction -/

/-- The instruction that starts at an address. -/
def fetch? (code : List UInt8) (a : Nat) : Option Instr :=
  match code.drop a with
  | [] => none
  | byte :: rest => (Opcode.ofByte? byte).bind fun op => op.instr? rest

/-- What starts at an address depends on nothing in front of it. -/
theorem fetch?_append (front code : List UInt8) (a : Nat) :
    fetch? (front ++ code) (front.length + a) = fetch? code a := by
  have hdrop : (front ++ code).drop (front.length + a) = code.drop a := by
    rw [List.drop_append, List.drop_eq_nil_of_le (Nat.le_add_right ..), List.nil_append,
      Nat.add_sub_cancel_left]
  rw [fetch?, hdrop, fetch?]

theorem fetch?_bytes {i : Instr} (h : i.Spellable) (rest : List UInt8) :
    fetch? (i.bytes ++ rest) 0 = some i := by
  simp [fetch?, Instr.bytes, Instr.instr?_operand h]

/-- An instruction that starts in the code ends in it. -/
theorem add_size_le_of_fetch? {code : List UInt8} {a : Nat} {i : Instr}
    (h : fetch? code a = some i) : a + i.size ≤ code.length := by
  rw [fetch?] at h
  split at h
  · cases h
  · rename_i byte rest hdrop
    obtain ⟨op, _, hop⟩ := Option.bind_eq_some_iff.1 h
    have hwidth := (Opcode.isSome_instr? op rest).1 (Option.isSome_of_mem hop)
    have hlength := congrArg List.length hdrop
    rw [List.length_drop, List.length_cons] at hlength
    rw [Instr.size, Instr.opcode_of_instr? hop]
    omega

/-- An instruction starts with the byte of its opcode. -/
theorem opcode_of_fetch? {code : List UInt8} {a : Nat} {i : Instr} (h : fetch? code a = some i) :
    code[a]?.bind Opcode.ofByte? = some i.opcode := by
  rw [fetch?] at h
  split at h
  · cases h
  · rename_i byte rest hdrop
    obtain ⟨op, hbyte, hop⟩ := Option.bind_eq_some_iff.1 h
    have hfirst : code[a]? = some byte := by
      rw [← List.head?_drop, hdrop, List.head?_cons]
    rw [hfirst, Option.bind_some, hbyte, Instr.opcode_of_instr? hop]

theorem lt_of_fetch? {code : List UInt8} {a : Nat} {i : Instr}
    (h : fetch? code a = some i) : a < code.length := by
  have := add_size_le_of_fetch? h
  have := i.size_pos
  omega

/-! ## Listings -/

/-- The instructions of a stretch of code with their addresses, the first of them
at the given address. -/
def listFrom? (a : Nat) (code : List UInt8) : Option (List (Nat × Instr)) :=
  match code with
  | [] => some []
  | byte :: rest =>
    match (Opcode.ofByte? byte).bind fun op => op.instr? rest with
    | none => none
    | some i => (listFrom? (a + i.size) (rest.drop i.opcode.width)).map ((a, i) :: ·)
termination_by code.length
decreasing_by simp only [List.length_drop, List.length_cons]; omega

/-- The instructions of a string of bytes with their addresses. -/
def listing? (code : List UInt8) : Option (List (Nat × Instr)) :=
  listFrom? 0 code

/-- Instructions with their addresses, the first of them at the given address. -/
def locate (a : Nat) : List Instr → List (Nat × Instr)
  | [] => []
  | i :: is => (a, i) :: locate (a + i.size) is

theorem listFrom?_assemble {is : List Instr} (h : ∀ i ∈ is, i.Spellable) (a : Nat) :
    listFrom? a (assemble is) = some (locate a is) := by
  induction is generalizing a with
  | nil => rw [assemble_nil, listFrom?, locate]
  | cons i is ih =>
    have hi : i.Spellable := h i (List.mem_cons_self ..)
    have htail := ih (fun j hj => h j (List.mem_cons_of_mem _ hj)) (a + i.size)
    have hdrop : (i.operand ++ assemble is).drop i.opcode.width = assemble is := by
      rw [← Instr.length_operand, List.drop_left]
    rw [assemble_cons, Instr.bytes, List.cons_append, listFrom?, Opcode.ofByte?_toByte,
      Option.bind_some, Instr.instr?_operand hi]
    simp only [hdrop, htail, locate, Option.map_some]

/-- The listing of spelled instructions is those instructions. -/
theorem listing?_assemble {is : List Instr} (h : ∀ i ∈ is, i.Spellable) :
    listing? (assemble is) = some (locate 0 is) :=
  listFrom?_assemble h 0

/-- An address where an instruction of the listing starts, or the end of the
code. -/
def Boundary (code : List UInt8) (a : Nat) : Prop :=
  ∃ listing, listing? code = some listing ∧ ((∃ i, (a, i) ∈ listing) ∨ a = code.length)

/-- A listing starts where it is told to, unless there is no code. -/
theorem start_listFrom? {code : List UInt8} {a : Nat} {listing : List (Nat × Instr)}
    (h : listFrom? a code = some listing) : (∃ i, (a, i) ∈ listing) ∨ code = [] := by
  cases code with
  | nil => exact .inr rfl
  | cons byte rest =>
    rw [listFrom?] at h
    split at h
    · cases h
    · rename_i i _
      obtain ⟨_, _, rfl⟩ := Option.map_eq_some_iff.1 h
      exact .inl ⟨i, List.mem_cons_self ..⟩

theorem mem_listFrom? {code : List UInt8} {a : Nat} {listing : List (Nat × Instr)}
    (h : listFrom? a code = some listing) {b : Nat} {i : Instr} (hmem : (b, i) ∈ listing) :
    a ≤ b ∧ fetch? code (b - a) = some i ∧
      ((∃ j, (b + i.size, j) ∈ listing) ∨ b + i.size = a + code.length) := by
  fun_induction listFrom? a code generalizing listing with
  | case1 => cases h; cases hmem
  | case2 => cases h
  | case3 a byte rest k hk ih =>
    obtain ⟨later, hlater, rfl⟩ := Option.map_eq_some_iff.1 h
    have hfetch : fetch? (byte :: rest) 0 = some k := hk
    have hsize := add_size_le_of_fetch? hfetch
    have hsplit :
        byte :: rest = (byte :: rest.take k.opcode.width) ++ rest.drop k.opcode.width := by
      rw [List.cons_append, List.take_append_drop]
    have hfront : (byte :: rest.take k.opcode.width).length = k.size := by
      rw [Instr.size] at hsize ⊢
      rw [List.length_cons] at hsize ⊢
      rw [List.length_take]
      omega
    have hback : k.size + (rest.drop k.opcode.width).length = (byte :: rest).length := by
      rw [← hfront, ← List.length_append, ← hsplit]
    rcases List.mem_cons.1 hmem with heq | hmem
    · -- the first instruction: what follows it is the next one, or the end
      cases heq
      refine ⟨Nat.le_refl _, by rw [Nat.sub_self]; exact hfetch, ?_⟩
      rcases start_listFrom? hlater with ⟨j, hj⟩ | hnil
      · exact .inl ⟨j, List.mem_cons_of_mem _ hj⟩
      · rw [hnil, List.length_nil] at hback
        exact .inr (by omega)
    · obtain ⟨hle, hlookup, hnext⟩ := ih hlater hmem
      refine ⟨by omega, ?_, ?_⟩
      · rw [hsplit, show b - a = (byte :: rest.take k.opcode.width).length + (b - (a + k.size)) by
          omega, fetch?_append]
        exact hlookup
      · rcases hnext with ⟨j, hj⟩ | hend
        · exact .inl ⟨j, List.mem_cons_of_mem _ hj⟩
        · right
          omega

/-- An instruction of the listing is the one that is fetched at its address. -/
theorem fetch?_of_mem_listing? {code : List UInt8} {listing : List (Nat × Instr)}
    (h : listing? code = some listing) {a : Nat} {i : Instr} (hmem : (a, i) ∈ listing) :
    fetch? code a = some i :=
  (mem_listFrom? h hmem).2.1

/-- Behind an instruction of the listing stands the next one, or the end. -/
theorem boundary_next {code : List UInt8} {listing : List (Nat × Instr)}
    (h : listing? code = some listing) {a : Nat} {i : Instr} (hmem : (a, i) ∈ listing) :
    Boundary code (a + i.size) := by
  refine ⟨listing, h, (mem_listFrom? h hmem).2.2.imp_right fun hend => ?_⟩
  rw [hend, Nat.zero_add]

/-- Code that has a listing starts at a boundary. -/
theorem boundary_zero {code : List UInt8} {listing : List (Nat × Instr)}
    (h : listing? code = some listing) : Boundary code 0 := by
  refine ⟨listing, h, (start_listFrom? h).imp_right fun hnil => ?_⟩
  rw [hnil, List.length_nil]

theorem locate_append (base : Nat) (is js : List Instr) :
    locate base (is ++ js) = locate base is ++ locate (base + size is) js := by
  induction is generalizing base with
  | nil => rfl
  | cons k is ih => rw [List.cons_append, locate, ih, locate, size_cons, Nat.add_assoc]; rfl

theorem mem_of_mem_locate {base a : Nat} {i : Instr} {is : List Instr}
    (h : (a, i) ∈ locate base is) : i ∈ is := by
  induction is generalizing base with
  | nil => cases h
  | cons k is ih =>
    rcases List.mem_cons.1 h with heq | h
    · cases heq
      exact List.mem_cons_self ..
    · exact List.mem_cons_of_mem _ (ih h)

/-- Located instructions lie between the beginning and the end. -/
theorem bounds_of_mem_locate {base a : Nat} {i : Instr} {is : List Instr}
    (h : (a, i) ∈ locate base is) : base ≤ a ∧ a + i.size ≤ base + size is := by
  induction is generalizing base with
  | nil => cases h
  | cons k is ih =>
    rw [size_cons]
    rcases List.mem_cons.1 h with heq | h
    · cases heq
      omega
    · have hrest := ih h
      omega

theorem map_snd_locate (base : Nat) (is : List Instr) : (locate base is).map Prod.snd = is := by
  induction is generalizing base with
  | nil => rfl
  | cons k is ih => exact congrArg (k :: ·) (ih (base + k.size))

/-- A boundary is where an instruction is listed, unless the code ends there. -/
theorem mem_of_boundary {code : List UInt8} {listing : List (Nat × Instr)}
    (hlisting : listing? code = some listing) {a : Nat} (h : Boundary code a)
    (ha : a < code.length) : ∃ i, (a, i) ∈ listing := by
  obtain ⟨listing', hlisting', hmem | hend⟩ := h
  · rw [hlisting] at hlisting'
    cases hlisting'
    exact hmem
  · omega

/-- The instruction that is fetched at a boundary is the one that is listed there. -/
theorem mem_of_fetch? {code : List UInt8} {listing : List (Nat × Instr)}
    (hlisting : listing? code = some listing) {a : Nat} {i : Instr} (ha : Boundary code a)
    (hi : fetch? code a = some i) : (a, i) ∈ listing := by
  obtain ⟨j, hj⟩ := mem_of_boundary hlisting ha (lt_of_fetch? hi)
  have hfetch := fetch?_of_mem_listing? hlisting hj
  rw [hi] at hfetch
  cases hfetch
  exact hj

/-- No boundary lies outside of the code. -/
theorem le_of_boundary {code : List UInt8} {a : Nat} (h : Boundary code a) : a ≤ code.length := by
  obtain ⟨listing, hlisting, ⟨i, hi⟩ | hend⟩ := h
  · exact Nat.le_of_lt (lt_of_fetch? (fetch?_of_mem_listing? hlisting hi))
  · exact Nat.le_of_eq hend

/-! ## Instructions at a place -/

/-- Instructions are spelled in the code from an address on. -/
def Placed (code : List UInt8) (a : Nat) (is : List Instr) : Prop :=
  (∀ i ∈ is, i.Spellable) ∧ ∃ front back, code = front ++ assemble is ++ back ∧ front.length = a

theorem placed_assemble {is : List Instr} (h : ∀ i ∈ is, i.Spellable) :
    Placed (assemble is) 0 is :=
  ⟨h, [], [], by simp, rfl⟩

/-- Instructions one after the other stand one after the other. -/
theorem placed_append {code : List UInt8} {a : Nat} {is js : List Instr}
    (h : Placed code a (is ++ js)) : Placed code a is ∧ Placed code (a + size is) js := by
  obtain ⟨hspell, front, back, rfl, rfl⟩ := h
  refine ⟨⟨fun i hi => hspell i (List.mem_append_left _ hi), front, assemble js ++ back, by simp,
      rfl⟩,
    fun i hi => hspell i (List.mem_append_right _ hi), front ++ assemble is, back, by simp, ?_⟩
  rw [List.length_append, length_assemble]

theorem placed_tail {code : List UInt8} {a : Nat} {i : Instr} {is : List Instr}
    (h : Placed code a (i :: is)) : Placed code (a + i.size) is := by
  rw [← List.singleton_append] at h
  have htail := (placed_append h).2
  rwa [size_cons, size_nil, Nat.add_zero] at htail

/-- What is spelled in the code ends in it. -/
theorem add_size_le_of_placed {code : List UInt8} {a : Nat} {is : List Instr}
    (h : Placed code a is) : a + size is ≤ code.length := by
  obtain ⟨-, front, back, rfl, rfl⟩ := h
  rw [List.length_append, List.length_append, length_assemble]
  omega

/-- An instruction is fetched where it is spelled. -/
theorem fetch?_of_placed {code : List UInt8} {a : Nat} {i : Instr} {is : List Instr}
    (h : Placed code a (i :: is)) : fetch? code a = some i := by
  obtain ⟨hspell, front, back, rfl, rfl⟩ := h
  rw [List.append_assoc, ← Nat.add_zero front.length, fetch?_append, assemble_cons,
    List.append_assoc]
  exact fetch?_bytes (hspell i (List.mem_cons_self ..)) _

end Code
end Octet
