import Octet.Draft
import Octet.Proofs.Layout.Direct

/-!
# Code with holes

A draft keeps the bytes of its code in one list and the places that wait for an
address in another.  A `Cell` is one byte of code with both in one place: a byte
that is settled, or a hole that waits for a label.  A list of cells determines the
bytes that a draft holds before the addresses are known, with a zero in every hole
(`Cell.blank`), and the fixups that go with them (`holes`).

Writing the addresses fills the holes and nothing else.  `resolve_holes` says so:
if the code and the fixups of a draft come from the same cells, then resolving the
draft succeeds exactly with the filled cells as its code.
-/

namespace Octet

/-- A byte of code, or a hole that waits for the address of a label. -/
inductive Cell where
  | byte (b : UInt8)
  | hole (l : Label)
  deriving DecidableEq, Repr

namespace Cell

/-- The byte that stands in the code while the addresses are not known. -/
def blank : Cell → UInt8
  | byte b => b
  | hole _ => 0

/-- The byte that stands in the code in the end, given the addresses of the
labels. -/
def fill (address : Label → Option Nat) : Cell → Option UInt8
  | byte b => some b
  | hole l => (address l).bind byte?

/-- The fixups of cells, the first of which stands at the given offset. -/
def holes (offset : Nat) : List Cell → List Fixup
  | [] => []
  | byte _ :: cells => holes (offset + 1) cells
  | hole l :: cells => ⟨offset, l⟩ :: holes (offset + 1) cells

/-- Bytes that are settled. -/
def ofBytes (bytes : List UInt8) : List Cell :=
  bytes.map byte

@[simp] theorem map_blank_ofBytes (bytes : List UInt8) : (ofBytes bytes).map blank = bytes := by
  rw [ofBytes, List.map_map]
  exact List.map_id bytes

@[simp] theorem length_ofBytes (bytes : List UInt8) : (ofBytes bytes).length = bytes.length :=
  List.length_map ..

@[simp] theorem holes_ofBytes (offset : Nat) (bytes : List UInt8) :
    holes offset (ofBytes bytes) = [] := by
  induction bytes generalizing offset with
  | nil => rfl
  | cons b bytes ih => exact ih (offset + 1)

theorem holes_append (offset : Nat) (cells cells' : List Cell) :
    holes offset (cells ++ cells') =
      holes offset cells ++ holes (offset + cells.length) cells' := by
  induction cells generalizing offset with
  | nil => rfl
  | cons cell cells ih =>
    rw [List.length_cons, show offset + (cells.length + 1) = offset + 1 + cells.length by omega]
    cases cell with
    | byte b => exact ih (offset + 1)
    | hole l => exact congrArg (_ :: ·) (ih (offset + 1))

/-- Settled bytes are filled already. -/
theorem mapM_fill_ofBytes (address : Label → Option Nat) (bytes : List UInt8) :
    (ofBytes bytes).mapM (fill address) = some bytes := by
  induction bytes with
  | nil => rfl
  | cons b bytes ih =>
    rw [ofBytes, List.map_cons, List.mapM_cons]
    rw [ofBytes] at ih
    rw [ih]
    rfl

/-- Filling a concatenation is filling its two parts. -/
theorem mapM_fill_append {address : Label → Option Nat} {cells cells' : List Cell}
    {bytes : List UInt8} (h : (cells ++ cells').mapM (fill address) = some bytes) :
    ∃ front back, cells.mapM (fill address) = some front ∧
      cells'.mapM (fill address) = some back ∧ bytes = front ++ back := by
  rw [List.mapM_append] at h
  obtain ⟨front, hfront, h⟩ := Option.bind_eq_some_iff.1 h
  obtain ⟨back, hback, h⟩ := Option.bind_eq_some_iff.1 h
  exact ⟨front, back, hfront, hback, (Option.some.inj h).symm⟩

/-- Filling keeps the number of bytes. -/
theorem mapM_fill_length {address : Label → Option Nat} {cells : List Cell} {bytes : List UInt8}
    (h : cells.mapM (fill address) = some bytes) : cells.length = bytes.length := by
  induction cells generalizing bytes with
  | nil =>
    cases h
    rfl
  | cons cell cells ih =>
    rw [List.mapM_cons] at h
    obtain ⟨b, -, h⟩ := Option.bind_eq_some_iff.1 h
    obtain ⟨back, hback, h⟩ := Option.bind_eq_some_iff.1 h
    cases h
    rw [List.length_cons, List.length_cons, ih hback]

end Cell

theorem Emit.perform_get_bind {α : Type} (f : Draft → Emit α) (d : Draft) :
    (get >>= f).perform d = (f d).perform d := rfl

namespace Draft

open Cell

/-- The draft with other code. -/
def withCode (d : Draft) (code : List UInt8) : Draft :=
  { d with code := code }

@[simp] theorem withCode_code (d : Draft) (code : List UInt8) : (d.withCode code).code = code := rfl

@[simp] theorem address?_withCode (d : Draft) (code : List UInt8) :
    (d.withCode code).address? = d.address? := rfl

/-- Patching one fixup writes its address, if it has one that fits. -/
theorem perform_patch {f : Fixup} {d d' : Draft} {u : Unit}
    (h : (patch f).perform d = (.ok u, d')) :
    ∃ b, (d.address? f.target).bind byte? = some b ∧ d' = d.withCode (d.code.set f.offset b) := by
  rw [patch, Emit.perform_get_bind] at h
  split at h
  · cases h
  · rename_i address haddress
    split at h
    · rename_i hlt
      cases h
      exact ⟨UInt8.ofNat address, by rw [haddress]; exact byte?_of_lt hlt, rfl⟩
    · cases h

/-- Patching the holes of cells fills them. -/
theorem perform_patch_holes {cells : List Cell} {front : List UInt8} {d d' : Draft} {u : Unit}
    (hcode : d.code = front ++ cells.map blank)
    (h : ((holes front.length cells).forM patch).perform d = (.ok u, d')) :
    ∃ bytes, cells.mapM (fill d.address?) = some bytes ∧ d' = d.withCode (front ++ bytes) := by
  induction cells generalizing front d with
  | nil =>
    cases h
    exact ⟨[], rfl, by rw [← List.map_nil (f := blank), ← hcode]; rfl⟩
  | cons cell cells ih =>
    cases cell with
    | byte b =>
      have hlength : (front ++ [b]).length = front.length + 1 := List.length_append
      rw [holes, ← hlength] at h
      obtain ⟨bytes, hbytes, hd'⟩ := ih (by rw [hcode]; simp [blank]) h
      refine ⟨b :: bytes, ?_, by rw [hd', List.append_assoc]; rfl⟩
      rw [List.mapM_cons, hbytes]
      rfl
    | hole l =>
      have hcons : (holes front.length (hole l :: cells)).forM patch =
          patch ⟨front.length, l⟩ >>= fun _ => (holes (front.length + 1) cells).forM patch := rfl
      rw [hcons, Emit.perform_bind] at h
      split at h
      · rename_i v d₁ hpatch
        obtain ⟨b, hb, rfl⟩ := perform_patch hpatch
        have hlength : (front ++ [b]).length = front.length + 1 := List.length_append
        have hset : (d.withCode (d.code.set front.length b)).code =
            front ++ [b] ++ cells.map blank := by
          rw [withCode_code, hcode, List.set_append_right _ _ (Nat.le_refl _), Nat.sub_self,
            List.map_cons, List.set_cons_zero, List.append_assoc]
          rfl
        rw [← hlength] at h
        obtain ⟨bytes, hbytes, hd'⟩ := ih hset h
        refine ⟨b :: bytes, ?_, by rw [hd', List.append_assoc]; rfl⟩
        rw [address?_withCode] at hbytes
        rw [List.mapM_cons, hbytes, fill, hb]
        rfl
      · cases h

/-- Resolving a draft fills the holes of its code. -/
theorem resolve_holes {cells : List Cell} {d d' : Draft} {u : Unit}
    (hcode : d.code = cells.map blank) (hfixups : d.fixups = holes 0 cells)
    (h : resolve.perform d = (.ok u, d')) :
    d.code.length ≤ maxCodeSize ∧
      ∃ bytes, cells.mapM (fill d.address?) = some bytes ∧ d' = d.withCode bytes := by
  rw [resolve, Emit.perform_get_bind, hfixups] at h
  split at h
  · cases h
  · rename_i hsize
    have hfront : d.code = [] ++ cells.map blank := hcode
    exact ⟨Nat.le_of_not_lt hsize, perform_patch_holes hfront h⟩

end Draft
end Octet
