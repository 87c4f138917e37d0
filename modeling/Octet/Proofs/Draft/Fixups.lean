import Mathlib.Data.List.Nodup
import Octet.Proofs.Layout.Backpatching

/-!
# Writing the addresses of a draft

A jump is appended with a byte in place of its address, and `resolve` writes the address once it is
known.  This file says exactly which bytes `resolve` writes, whether it succeeds or fails, for every
draft that a host can build: it appends instructions and jumps and marks labels in any order, some
of these deeds fail, and it goes on.  A label may be marked before it is used or afterwards, several
times or never (`Deed`).

## Why no address is written over another

The byte that waits for an address is the last one of the instruction it was appended with, so no
two fixups wait at the same place, and all of them wait inside of the code.  This is the invariant
of the deeds (`Spread`).  With it an address that was written stays where it is while the ones
behind it are written, and writing all of them once more changes nothing.

## What a failure leaves behind

The addresses are written one after the other, and the first one that is missing or too great ends
it.  Those in front of it have been written by then (`Written`), and nothing else has.
-/

namespace Octet
namespace Draft

/-! ## Deeds -/

/-- What a host does to a draft that has this many labels. -/
inductive Deed (n : Nat) where
  /-- Append an instruction. -/
  | emit (op : Opcode) (operand : List UInt8)
  /-- Append an instruction whose operand is one byte. -/
  | emitByte (op : Opcode) (value : Int)
  /-- Append a jump. -/
  | emitJump (op : Opcode) (l : Fin n)
  /-- Mark a label, perhaps once more. -/
  | mark (l : Fin n)
  deriving DecidableEq, Repr

variable {n : Nat}

/-- The action of a deed. -/
def Deed.action : Deed n → Emit Unit
  | emit op operand => Draft.emit op operand
  | emitByte op value => Draft.emitByte op value
  | emitJump op l => Draft.emitJump op l
  | mark l => Draft.mark l

/-- The draft after a number of deeds, whether they fail or not. -/
def doing (d : Draft) (deeds : List (Deed n)) : Draft :=
  deeds.foldl (fun d deed => (deed.action.perform d).2) d

/-- The draft that deeds build from nothing but labels that are not marked. -/
def built (deeds : List (Deed n)) : Draft :=
  doing { labels := List.replicate n none } deeds

theorem doing_cons (d : Draft) (deed : Deed n) (deeds : List (Deed n)) :
    d.doing (deed :: deeds) = (deed.action.perform d).2.doing deeds := rfl

theorem doing_append (d : Draft) (front back : List (Deed n)) :
    d.doing (front ++ back) = (d.doing front).doing back :=
  List.foldl_append

/-! ## What the deeds do -/

/-- What a deed can come to: nothing, more code, a jump, or an address for a label. -/
theorem deed_cases (deed : Deed n) (d : Draft) :
    (deed.action.perform d).2 = d ∨
    (∃ bytes, (deed.action.perform d).2 = d.withCode (d.code ++ bytes)) ∨
    (∃ op l, (deed.action.perform d).2 = d.withJump op l) ∨
    ∃ l : Fin n, deed = .mark l ∧
      (deed.action.perform d).2 = d.withLabels (d.labels.set l (some d.code.length)) := by
  cases deed with
  | emit op operand =>
    rw [Deed.action]
    obtain ⟨-, hemit⟩ | ⟨e, hfailed⟩ := emit_cases op operand d
    · exact .inr (.inl ⟨_, by rw [hemit]⟩)
    · exact .inl (by rw [hfailed])
  | emitByte op value =>
    rw [Deed.action]
    obtain ⟨b, -, -, hbyte⟩ | ⟨e, hfailed⟩ := emitByte_cases op value d
    · exact .inr (.inl ⟨_, by rw [hbyte]⟩)
    · exact .inl (by rw [hfailed])
  | emitJump op l =>
    rw [Deed.action]
    obtain ⟨-, hjump⟩ | ⟨e, hfailed⟩ := emitJump_cases op l d
    · exact .inr (.inr (.inl ⟨op, l, by rw [hjump]⟩))
    · exact .inl (by rw [hfailed])
  | mark l => exact .inr (.inr (.inr ⟨l, rfl, rfl⟩))

/-! ## Offsets -/

/-- The fixups of a draft wait at different places of its code. -/
structure Spread (d : Draft) : Prop where
  nodup : (d.fixups.map Fixup.offset).Nodup
  inside : ∀ f ∈ d.fixups, f.offset < d.code.length

/-- More code does not move the fixups. -/
theorem Spread.withCode {d : Draft} (h : d.Spread) (bytes : List UInt8) :
    (d.withCode (d.code ++ bytes)).Spread where
  nodup := h.nodup
  inside f hf := by
    have hlt := h.inside f hf
    rw [withCode_code, List.length_append]
    omega

/-- The fixup of a new jump waits behind all others. -/
theorem Spread.withJump {d : Draft} (h : d.Spread) (op : Opcode) (l : Label) :
    (d.withJump op l).Spread where
  nodup := by
    have hnew : d.code.length + 1 ∉ d.fixups.map Fixup.offset := fun hmem => by
      obtain ⟨f, hf, hoffset⟩ := List.mem_map.1 hmem
      have hlt := h.inside f hf
      omega
    rw [Draft.withJump, List.map_append]
    exact List.concat_eq_append ▸ h.nodup.concat hnew
  inside f hf := by
    have hlength : (d.withJump op l).code.length = d.code.length + 2 := List.length_append
    rcases List.mem_append.1 hf with hf | hf
    · have hlt := h.inside f hf
      omega
    · obtain rfl := List.mem_singleton.1 hf
      exact hlength ▸ Nat.lt_succ_self _

/-- Every deed keeps the fixups apart, whether it fails or not. -/
theorem Spread.deed {d : Draft} (h : d.Spread) (deed : Deed n) :
    (deed.action.perform d).2.Spread := by
  obtain hd | ⟨bytes, hd⟩ | ⟨op, l, hd⟩ | ⟨l, -, hd⟩ := deed_cases deed d
  · rwa [hd]
  · rw [hd]
    exact h.withCode bytes
  · rw [hd]
    exact h.withJump op l
  · rw [hd]
    exact ⟨h.nodup, h.inside⟩

/-- The fixups stay apart whatever is done. -/
theorem Spread.doing {d : Draft} (h : d.Spread) (deeds : List (Deed n)) :
    (d.doing deeds).Spread := by
  induction deeds generalizing d with
  | nil => exact h
  | cons deed deeds ih => exact ih (h.deed deed)

theorem spread_built (deeds : List (Deed n)) : (built deeds).Spread := by
  have hstart : Spread { labels := List.replicate n none } :=
    ⟨List.nodup_nil, fun _ hf => absurd hf List.not_mem_nil⟩
  exact hstart.doing deeds

/-! ## Labels -/

/-- Deeds make no labels. -/
theorem length_labels_doing (d : Draft) (deeds : List (Deed n)) :
    (d.doing deeds).labels.length = d.labels.length := by
  induction deeds generalizing d with
  | nil => rfl
  | cons deed deeds ih =>
    rw [doing_cons, ih]
    obtain hd | ⟨bytes, hd⟩ | ⟨op, l, hd⟩ | ⟨l, -, hd⟩ := deed_cases deed d
    · rw [hd]
    · rw [hd]
      rfl
    · rw [hd]
      rfl
    · rw [hd]
      exact List.length_set

/-- A label keeps its address until it is marked. -/
theorem address?_doing (d : Draft) {deeds : List (Deed n)} {l : Fin n} (h : .mark l ∉ deeds) :
    (d.doing deeds).address? l = d.address? l := by
  induction deeds generalizing d with
  | nil => rfl
  | cons deed deeds ih =>
    rw [doing_cons, ih _ fun hmem => h (List.mem_cons_of_mem _ hmem)]
    obtain hd | ⟨bytes, hd⟩ | ⟨op, k, hd⟩ | ⟨k, rfl, hd⟩ := deed_cases deed d
    · rw [hd]
    · rw [hd]
      rfl
    · rw [hd]
      rfl
    · have hne : (k : Nat) ≠ l := fun heq => h (Fin.ext heq ▸ List.mem_cons_self ..)
      rw [hd, address?, withLabels_labels, getD_set_of_ne _ hne, address?]

/-- A label that is never marked has no address. -/
theorem address?_built_of_notMem {deeds : List (Deed n)} {l : Fin n} (h : .mark l ∉ deeds) :
    (built deeds).address? l = none := by
  rw [built, address?_doing _ h, address?, List.getD_eq_getElem?_getD,
    List.getElem?_replicate_of_lt l.isLt, Option.getD_some]

/-- A label has the address at which it was marked last. -/
theorem address?_built_of_last {front back : List (Deed n)} {l : Fin n} (h : .mark l ∉ back) :
    (built (front ++ .mark l :: back)).address? l = some (built front).code.length := by
  have hlt : (l : Nat) < (built front).labels.length := by
    rw [built, length_labels_doing, List.length_replicate]
    exact l.isLt
  have hsplit : built (front ++ .mark l :: back) =
      ((built front).withLabels
        ((built front).labels.set l (some (built front).code.length))).doing back :=
    doing_append ..
  rw [hsplit, address?_doing _ h, address?, withLabels_labels, getD_set_self hlt]

/-! ## Addresses -/

/-- The addresses that some fixups wait for have been written, and nothing else was changed. -/
structure Written (d : Draft) (fixups : List Fixup) (d' : Draft) : Prop where
  rest : d' = d.withCode d'.code
  length : d'.code.length = d.code.length
  byte : ∀ f ∈ fixups, ∃ a, d.address? f.target = some a ∧ a ≤ 255 ∧
    d'.code[f.offset]? = some (UInt8.ofNat a)
  other : ∀ i, (∀ f ∈ fixups, f.offset ≠ i) → d'.code[i]? = d.code[i]?

/-- The address that a fixup waits for is missing or too great, and this is the fault of it. -/
def Misses (d : Draft) (f : Fixup) (fault : CompileFault) : Prop :=
  d.address? f.target = none ∧ fault = .unmarkedLabel f.offset ∨
    ∃ a, d.address? f.target = some a ∧ 255 < a ∧ fault = .targetTooFar a

theorem Misses.not_le {d : Draft} {f : Fixup} {fault : CompileFault} (h : d.Misses f fault) :
    ¬ ∃ a, d.address? f.target = some a ∧ a ≤ 255 := by
  rintro ⟨a, ha, hle⟩
  obtain ⟨hnone, -⟩ | ⟨b, hb, hlt, -⟩ := h
  · cases hnone.symm.trans ha
  · cases hb.symm.trans ha
    omega

theorem written_nil (d : Draft) : d.Written [] d :=
  ⟨rfl, rfl, nofun, fun _ _ => rfl⟩

/-- One address more, in front of the others. -/
theorem Written.cons {d d' : Draft} {f : Fixup} {fixups : List Fixup} {a : Nat}
    (haddress : d.address? f.target = some a) (hle : a ≤ 255) (hinside : f.offset < d.code.length)
    (hapart : ∀ g ∈ fixups, g.offset ≠ f.offset)
    (h : (d.withCode (d.code.set f.offset (UInt8.ofNat a))).Written fixups d') :
    d.Written (f :: fixups) d' where
  rest := h.rest
  length := by rw [h.length, withCode_code, List.length_set]
  byte g hg := by
    rcases List.mem_cons.1 hg with rfl | hg
    · refine ⟨a, haddress, hle, ?_⟩
      rw [h.other _ hapart, withCode_code, List.getElem?_set_self hinside]
    · exact h.byte g hg
  other i hi := by
    have hne : f.offset ≠ i := hi f (List.mem_cons_self ..)
    rw [h.other i fun g hg => hi g (List.mem_cons_of_mem _ hg), withCode_code,
      List.getElem?_set_ne hne]

/-- Writing the address of one fixup. -/
theorem patch_cases (f : Fixup) (d : Draft) :
    (∃ a, d.address? f.target = some a ∧ a ≤ 255 ∧
      (patch f).perform d = (.ok (), d.withCode (d.code.set f.offset (UInt8.ofNat a)))) ∨
    ∃ fault, d.Misses f fault ∧ (patch f).perform d = (.error ⟨fault, .unknown⟩, d) := by
  rw [patch, Emit.perform_get_bind]
  cases haddress : d.address? f.target with
  | none => exact .inr ⟨_, .inl ⟨haddress, rfl⟩, rfl⟩
  | some a =>
    dsimp only
    split
    · rename_i hlt
      exact .inl ⟨a, rfl, by omega, rfl⟩
    · exact .inr ⟨_, .inr ⟨a, haddress, by omega, rfl⟩, rfl⟩

/-- Writing the addresses of fixups that wait at different places inside of the code: all of them,
or those in front of the first one that misses its address. -/
theorem patches_cases {fixups : List Fixup} {d : Draft}
    (hnodup : (fixups.map Fixup.offset).Nodup) (hinside : ∀ f ∈ fixups, f.offset < d.code.length) :
    (∃ d', (fixups.forM patch).perform d = (.ok (), d') ∧ d.Written fixups d') ∨
    ∃ front f back fault d', fixups = front ++ f :: back ∧ d.Misses f fault ∧
      (fixups.forM patch).perform d = (.error ⟨fault, .unknown⟩, d') ∧ d.Written front d' := by
  induction fixups generalizing d with
  | nil => exact .inl ⟨d, rfl, d.written_nil⟩
  | cons f fixups ih =>
    rw [List.map_cons, List.nodup_cons] at hnodup
    obtain ⟨hf, hnodup⟩ := hnodup
    have hapart : ∀ g ∈ fixups, g.offset ≠ f.offset := fun g hg heq =>
      hf (heq ▸ List.mem_map_of_mem hg)
    have hsteps : (f :: fixups).forM patch = (do patch f; fixups.forM patch) := rfl
    rw [hsteps, Emit.perform_bind]
    obtain ⟨a, haddress, hle, hpatch⟩ | ⟨fault, hmisses, hpatch⟩ := patch_cases f d
    · rw [hpatch]
      have hcons : ∀ {front : List Fixup} {d' : Draft}, (∀ g ∈ front, g ∈ fixups) →
          (d.withCode (d.code.set f.offset (UInt8.ofNat a))).Written front d' →
          d.Written (f :: front) d' := fun hsub h =>
        h.cons haddress hle (hinside f (List.mem_cons_self ..)) fun g hg => hapart g (hsub g hg)
      have hrest : ∀ g ∈ fixups,
          g.offset < (d.withCode (d.code.set f.offset (UInt8.ofNat a))).code.length := by
        intro g hg
        rw [withCode_code, List.length_set]
        exact hinside g (List.mem_cons_of_mem _ hg)
      obtain ⟨d', hd', hwritten⟩ | ⟨front, g, back, fault, d', rfl, hmisses, hd', hwritten⟩ :=
        ih hnodup hrest
      · exact .inl ⟨d', hd', hcons (fun _ => id) hwritten⟩
      · exact .inr ⟨f :: front, g, back, fault, d', rfl, hmisses, hd',
          hcons (fun _ => List.mem_append_left _) hwritten⟩
    · rw [hpatch]
      exact .inr ⟨[], f, fixups, fault, d, rfl, hmisses, rfl, d.written_nil⟩

/-- Writing the addresses of a draft. -/
theorem resolve_cases {d : Draft} (h : d.Spread) :
    (∃ d', d.code.length ≤ maxCodeSize ∧ resolve.perform d = (.ok (), d') ∧
      d.Written d.fixups d') ∨
    maxCodeSize < d.code.length ∧
      resolve.perform d = (.error ⟨.codeTooLong d.code.length, .unknown⟩, d) ∨
    ∃ front f back fault d', d.code.length ≤ maxCodeSize ∧ d.fixups = front ++ f :: back ∧
      d.Misses f fault ∧ resolve.perform d = (.error ⟨fault, .unknown⟩, d') ∧
      d.Written front d' := by
  rw [resolve, Emit.perform_get_bind]
  split
  · rename_i hlong
    exact .inr (.inl ⟨hlong, rfl⟩)
  · rename_i hlong
    have hsize := Nat.le_of_not_lt hlong
    obtain ⟨d', hd', hwritten⟩ | ⟨front, f, back, fault, d', hfixups, hmisses, hd', hwritten⟩ :=
      patches_cases h.nodup h.inside
    · exact .inl ⟨d', hsize, hd', hwritten⟩
    · exact .inr (.inr ⟨front, f, back, fault, d', hsize, hfixups, hmisses, hd', hwritten⟩)

/-- Addresses that were all written may be written once more. -/
theorem Written.resolve {d d' : Draft} (hspread : d.Spread) (hsize : d.code.length ≤ maxCodeSize)
    (h : d.Written d.fixups d') : Draft.resolve.perform d' = (.ok (), d') := by
  have hfixups : d'.fixups = d.fixups := by rw [h.rest]; rfl
  have haddress : d'.address? = d.address? := by rw [h.rest]; rfl
  have hspread' : d'.Spread :=
    ⟨by rw [hfixups]; exact hspread.nodup, by rw [hfixups, h.length]; exact hspread.inside⟩
  obtain ⟨d'', -, hd'', hwritten⟩ | ⟨hlong, -⟩ | ⟨front, f, back, fault, -, -, hall, hmisses, -⟩ :=
    resolve_cases hspread'
  · have hcode : d''.code = d'.code := by
      refine List.ext_getElem? fun i => ?_
      by_cases hi : ∀ f ∈ d'.fixups, f.offset ≠ i
      · exact hwritten.other i hi
      · obtain ⟨f, hf⟩ := not_forall.1 hi
        obtain ⟨hmem, hoffset⟩ := Classical.not_imp.1 hf
        obtain rfl := not_not.1 hoffset
        obtain ⟨a, ha, -, hbyte⟩ := h.byte f (hfixups ▸ hmem)
        obtain ⟨b, hb, -, hbyte'⟩ := hwritten.byte f hmem
        rw [haddress] at hb
        cases ha.symm.trans hb
        rw [hbyte, hbyte']
    rw [hd'', hwritten.rest, hcode]
    rfl
  · rw [h.length] at hlong
    exact absurd hsize (Nat.not_le.2 hlong)
  · have hmem : f ∈ d.fixups := by
      rw [← hfixups, hall]
      exact List.mem_append_right _ (List.mem_cons_self ..)
    obtain ⟨a, ha, hle, -⟩ := h.byte f hmem
    exact absurd ⟨a, haddress ▸ ha, hle⟩ hmisses.not_le

/-- **`resolve` writes the addresses that the fixups wait for, and no other byte**, whatever a host
has done to the draft.

* The fixups wait at different places of the code, and a label has the address at which it was
  marked last.
* All addresses are written exactly if the code is short enough and every label that a fixup waits
  for is marked at an address that is a byte.  Writing them once more changes nothing.
* Otherwise nothing is written, if the code is too long, or exactly the addresses in front of the
  first one that is missing or too great. -/
theorem resolve_built (deeds : List (Deed n)) :
    (((built deeds).fixups.map Fixup.offset).Nodup ∧
      ∀ f ∈ (built deeds).fixups, f.offset < (built deeds).code.length) ∧
    (∀ l : Fin n, .mark l ∉ deeds → (built deeds).address? l = none) ∧
    (∀ front (l : Fin n) back, deeds = front ++ .mark l :: back → .mark l ∉ back →
      (built deeds).address? l = some (built front).code.length) ∧
    ((resolve.perform (built deeds)).1 = .ok () ↔
      (built deeds).code.length ≤ 256 ∧ ∀ f ∈ (built deeds).fixups,
        ∃ a, (built deeds).address? f.target = some a ∧ a ≤ 255) ∧
    (∀ d', resolve.perform (built deeds) = (.ok (), d') →
      (built deeds).Written (built deeds).fixups d' ∧ resolve.perform d' = (.ok (), d')) ∧
    ∀ e d', resolve.perform (built deeds) = (.error e, d') →
      256 < (built deeds).code.length ∧ d' = built deeds ∨
      ∃ front f back, (built deeds).code.length ≤ 256 ∧
        (built deeds).fixups = front ++ f :: back ∧ (built deeds).Misses f e.fault ∧
        (built deeds).Written front d' := by
  have hspread := spread_built deeds
  refine ⟨⟨hspread.nodup, hspread.inside⟩, fun l => address?_built_of_notMem, ?_, ?_⟩
  · rintro front l back rfl hback
    exact address?_built_of_last hback
  obtain ⟨d', hsize, hd', hwritten⟩ | ⟨hlong, hd'⟩ |
      ⟨front, f, back, fault, d', hsize, hfixups, hmisses, hd', hwritten⟩ :=
    resolve_cases hspread
  · rw [hd']
    refine ⟨⟨fun _ => ⟨hsize, fun f hf => ?_⟩, fun _ => rfl⟩, ?_, nofun⟩
    · obtain ⟨a, ha, hle, -⟩ := hwritten.byte f hf
      exact ⟨a, ha, hle⟩
    · rintro _ ⟨⟩
      exact ⟨hwritten, hwritten.resolve hspread hsize⟩
  · rw [hd']
    refine ⟨⟨nofun, fun h => absurd h.1 (Nat.not_le.2 hlong)⟩, nofun, ?_⟩
    rintro _ _ ⟨⟩
    exact .inl ⟨hlong, rfl⟩
  · rw [hd']
    refine ⟨⟨nofun, fun h => ?_⟩, nofun, ?_⟩
    · refine absurd (h.2 f ?_) hmisses.not_le
      rw [hfixups]
      exact List.mem_append_right _ (List.mem_cons_self ..)
    · rintro _ _ ⟨⟩
      exact .inr ⟨front, f, back, hsize, hfixups, hmisses, hwritten⟩

/-- Two labels that are jumped to from in front of them and from behind, one of them marked twice.
There is no byte for the operand of the fourth deed. -/
def crossing : List (Deed 2) :=
  [.mark 0, .emitJump .jump 1, .emit .ret [], .emitByte .pushBool 300, .mark 1,
    .emitJump .jumpIfFalse 0, .mark 0, .emitJump .jump 1]

/-- The second label is never marked. -/
def hanging : List (Deed 2) :=
  [.emitJump .jump 0, .mark 0, .emitJump .jump 1]

theorem resolve_built_crossing :
    (built crossing).address? 0 = some 5 ∧
    resolve.perform (built crossing) =
      (.ok (), (built crossing).withCode [0xc0, 3, 0xff, 0xa1, 5, 0xc0, 3]) ∧
    (built crossing).Written [⟨1, 1⟩, ⟨4, 0⟩, ⟨6, 1⟩]
      ((built crossing).withCode [0xc0, 3, 0xff, 0xa1, 5, 0xc0, 3]) ∧
    (built hanging).address? 1 = none ∧
    resolve.perform (built hanging) =
      (.error ⟨.unmarkedLabel 3, .unknown⟩, (built hanging).withCode [0xc0, 2, 0xc0, 0]) ∧
    ∃ front f back, (built hanging).fixups = front ++ f :: back ∧
      (built hanging).Misses f (.unmarkedLabel 3) ∧
      (built hanging).Written front ((built hanging).withCode [0xc0, 2, 0xc0, 0]) := by
  obtain ⟨-, -, hlast, -, hwritten, -⟩ := resolve_built crossing
  obtain ⟨-, hnever, -, -, -, hfailed⟩ := resolve_built hanging
  refine ⟨hlast (crossing.take 6) 0 (crossing.drop 7) rfl (by decide), rfl, (hwritten _ rfl).1,
    hnever 1 (by decide), rfl, ?_⟩
  obtain ⟨hlong, -⟩ | ⟨front, f, back, -, hrest⟩ := hfailed _ _ rfl
  · exact absurd hlong (by decide)
  · exact ⟨front, f, back, hrest⟩

end Draft
end Octet
