import Octet.Proofs.Layout.Cell

/-!
# What the primitive actions of a draft do

An action that succeeds did one definite thing to the draft.  The lemmas here read
off what it was, one for each primitive action, so that the actions themselves
need not be opened again: an instruction is appended, a jump is appended with a
hole, a label is added or marked, a name has its number.  Where the action may fail
(`emit_cases`, `emitByte_cases`, `emitJump_cases`), the draft is as it was before.

Names are numbered once and for all.  `List.idxOf?` finds the first occurrence of a
name, and a list that only grows at its end keeps its first occurrences
(`idxOf?_mono`).
-/

namespace Octet

/-- The place of an entry stays the same when a list grows at its end. -/
theorem idxOf?_mono {l m : List String} (h : l <+: m) {x : String} {i : Nat}
    (hx : l.idxOf? x = some i) : m.idxOf? x = some i := by
  obtain ⟨tail, rfl⟩ := h
  rw [List.idxOf?, List.findIdx?_append, ← List.idxOf?, hx]
  rfl

/-- What has a place in a list is an entry of it. -/
theorem mem_of_idxOf? {l : List String} {x : String} {i : Nat} (h : l.idxOf? x = some i) :
    x ∈ l := by
  refine Decidable.not_not.1 fun hnot => ?_
  rw [List.idxOf?_eq_none_iff.2 hnot] at h
  cases h

/-- An entry that is added at the end of a list without it has the last place. -/
theorem idxOf?_append_singleton {l : List String} {x : String} (h : l.idxOf? x = none) :
    (l ++ [x]).idxOf? x = some l.length := by
  rw [List.idxOf?, List.findIdx?_append, ← List.idxOf?, h]
  simp

namespace Emit

/-- An action that succeeds in two parts succeeds in each of them. -/
theorem bind_ok {α β : Type} {a : Emit α} {f : α → Emit β} {d d'' : Draft} {y : β}
    (h : (a >>= f).perform d = (.ok y, d'')) :
    ∃ x d', a.perform d = (.ok x, d') ∧ (f x).perform d' = (.ok y, d'') := by
  rw [perform_bind] at h
  split at h
  · rename_i x d' ha
    exact ⟨x, d', ha, h⟩
  · cases h

end Emit

namespace Draft

/-- The numbers that a draft has given out. -/
def tables (d : Draft) : Tables :=
  ⟨d.constants, d.registers⟩

/-- The draft with other labels. -/
def withLabels (d : Draft) (labels : List (Option Nat)) : Draft :=
  { d with labels := labels }

@[simp] theorem withLabels_labels (d : Draft) (labels : List (Option Nat)) :
    (d.withLabels labels).labels = labels := rfl

@[simp] theorem withLabels_code (d : Draft) (labels : List (Option Nat)) :
    (d.withLabels labels).code = d.code := rfl

@[simp] theorem withLabels_withLabels (d : Draft) (labels labels' : List (Option Nat)) :
    (d.withLabels labels).withLabels labels' = d.withLabels labels' := rfl

theorem emit_ok {op : Opcode} {operand : List UInt8} {d d' : Draft} {u : Unit}
    (h : (emit op operand).perform d = (.ok u, d')) :
    operand.length = op.width ∧ d' = d.withCode (d.code ++ op.toByte :: operand) := by
  rw [emit] at h
  split at h
  · rename_i hlength
    cases h
    exact ⟨hlength, rfl⟩
  · cases h

theorem emitByte_ok {op : Opcode} {n : Int} {d d' : Draft} {u : Unit}
    (h : (emitByte op n).perform d = (.ok u, d')) :
    ∃ b, byte? n.toNat = some b ∧ d' = d.withCode (d.code ++ [op.toByte, b]) := by
  rw [emitByte] at h
  split at h
  · rename_i hn
    obtain ⟨-, rfl⟩ := emit_ok h
    exact ⟨UInt8.ofNat n.toNat, byte?_of_lt (by omega), rfl⟩
  · cases h

/-- The bytes of a word are never missing. -/
theorem emitWord_of_mem (op : Opcode) {n : Int} (h : Word32.least ≤ n ∧ n ≤ Word32.greatest) :
    emitWord op n = emit op (Word32.bytes n) := by
  rw [emitWord, Word32.encode?_of_mem h]

theorem emitJump_ok {op : Opcode} {l : Label} {d d' : Draft} {u : Unit}
    (h : (emitJump op l).perform d = (.ok u, d')) :
    d' = { d with
      code := d.code ++ [op.toByte, 0], fixups := d.fixups ++ [⟨d.code.length + 1, l⟩] } := by
  obtain ⟨_, d₁, h₁, h₂⟩ := Emit.bind_ok h
  obtain ⟨b, hb, rfl⟩ := emitByte_ok h₁
  cases hb
  cases h₂
  simp [withCode]

/-- An instruction is appended, or nothing happens. -/
theorem emit_cases (op : Opcode) (operand : List UInt8) (d : Draft) :
    operand.length = op.width ∧
      (emit op operand).perform d = (.ok (), d.withCode (d.code ++ op.toByte :: operand)) ∨
    ∃ e, (emit op operand).perform d = (.error e, d) := by
  rw [emit]
  split
  · rename_i hlength
    exact .inl ⟨hlength, rfl⟩
  · exact .inr ⟨_, rfl⟩

theorem emitByte_cases (op : Opcode) (value : Int) (d : Draft) :
    (∃ b, op.width = 1 ∧ byte? value.toNat = some b ∧
      (emitByte op value).perform d = (.ok (), d.withCode (d.code ++ [op.toByte, b]))) ∨
    ∃ e, (emitByte op value).perform d = (.error e, d) := by
  rw [emitByte]
  split
  · rename_i hvalue
    obtain ⟨hlength, hemit⟩ | hfailed := emit_cases op [UInt8.ofNat value.toNat] d
    · exact .inl ⟨_, hlength.symm, byte?_of_lt (by omega), hemit⟩
    · exact .inr hfailed
  · exact .inr ⟨_, rfl⟩

/-- The draft with a jump behind its code that waits for the address of a label. -/
def withJump (d : Draft) (op : Opcode) (l : Label) : Draft :=
  { d with
    code := d.code ++ [op.toByte, 0], fixups := d.fixups ++ [⟨d.code.length + 1, l⟩] }

theorem emitJump_cases (op : Opcode) (l : Label) (d : Draft) :
    op.width = 1 ∧ (emitJump op l).perform d = (.ok (), d.withJump op l) ∨
    ∃ e, (emitJump op l).perform d = (.error e, d) := by
  obtain ⟨b, hwidth, hb, hbyte⟩ | ⟨e, hfailed⟩ := emitByte_cases op 0 d
  · cases hb
    refine .inl ⟨hwidth, ?_⟩
    have hlength : (d.code ++ [op.toByte, 0]).length - 1 = d.code.length + 1 := by simp
    rw [emitJump, Emit.perform_bind, hbyte]
    rw [withJump, ← hlength]
    rfl
  · exact .inr ⟨e, by rw [emitJump, Emit.perform_bind, hfailed]⟩

theorem newLabel_ok {d d' : Draft} {l : Nat} (h : newLabel.perform d = (.ok l, d')) :
    l = d.labels.length ∧ d' = d.withLabels (d.labels ++ [none]) := by
  cases h
  exact ⟨rfl, rfl⟩

theorem mark_ok {d d' : Draft} {l : Nat} {u : Unit} (h : (mark l).perform d = (.ok u, d')) :
    d' = d.withLabels (d.labels.set l (some d.code.length)) := by
  cases h
  rfl

/-- A number that was taken is the place of the entry, and the table has grown at its end if at
all. -/
theorem takeNumber_ok {table : List String} {x : String} {most i : Nat} {refusal : CompileError}
    {d d' : Draft} (grown : List String → Draft) (hd : grown table = d)
    (h : Emit.perform (takeNumber (table.idxOf? x) table.length most (grown (table ++ [x])) refusal)
      d = (.ok i, d')) :
    ∃ table', d' = grown table' ∧ table <+: table' ∧ table'.idxOf? x = some i := by
  obtain ⟨j, hj, hfound⟩ | ⟨hnone, ⟨-, hnew⟩ | ⟨-, hfull⟩⟩ :=
    takeNumber_cases (table.idxOf? x) table.length most (grown (table ++ [x])) refusal d
  · cases hfound.symm.trans h
    exact ⟨table, hd.symm, List.prefix_rfl, hj⟩
  · cases hnew.symm.trans h
    exact ⟨table ++ [x], rfl, List.prefix_append .., idxOf?_append_singleton hnone⟩
  · cases hfull.symm.trans h

theorem constant_ok {value : String} {site : Site} {d d' : Draft} {i : Nat}
    (h : (constant value site).perform d = (.ok i, d')) :
    ∃ constants, d' = { d with constants := constants } ∧ d.constants <+: constants ∧
      constants.idxOf? value = some i :=
  takeNumber_ok (fun constants => { d with constants := constants }) rfl h

theorem allocate_ok {name : String} {site : Site} {d d' : Draft} {i : Nat}
    (h : (allocate name site).perform d = (.ok i, d')) :
    ∃ registers, d' = { d with registers := registers } ∧ d.registers <+: registers ∧
      registers.idxOf? name = some i :=
  takeNumber_ok (fun registers => { d with registers := registers }) rfl h

theorem lookup_ok {name : String} {site : Site} {d d' : Draft} {i : Nat}
    (h : (lookup name site).perform d = (.ok i, d')) :
    d' = d ∧ d.registers.idxOf? name = some i := by
  rw [lookup, Emit.perform_get_bind] at h
  split at h
  · rename_i j hj
    cases h
    exact ⟨rfl, hj⟩
  · cases h

end Draft
end Octet
