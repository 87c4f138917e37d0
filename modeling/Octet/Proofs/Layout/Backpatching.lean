import Octet.Draft.Emission
import Octet.Proofs.Draft.Actions

/-!
# A draft ends up with the direct layout

A draft lays a tree out with holes and fills them at the end; `Expr.instrs?`,
`Stmt.instrs?` and `Chain.instrs?` write every address at once.  This file shows
that both come to the same bytes, for every program that is laid out at all
(`generate_ok`).

## The statement that is carried along

`Draft.Emits` says what laying out a part of a tree did to the draft.  It appended
cells, as many as the size of the part, and once the holes among them are filled
they spell the instructions of the direct layout.  The addresses come from outside:
an `address` function gives one to every label, and it has to agree with the draft
on the labels that the part made itself.  About labels that were there before
nothing is said, since a part of a loop jumps to a label that is marked only after
the part is complete.

The same goes for the tables.  The direct layout looks the numbers up in any tables
that extend those of the draft, so the ones at the very end will do.

## Labels

A label that is marked keeps its address, because a statement marks only labels
that it made.  `Draft.Keeps` states what is needed for putting two parts together:
the second one leaves the addresses alone that the first one settled.
-/

namespace Octet

open Code Draft

/-- All numbers of the first tables are the same in the second. -/
def Tables.Within (t u : Tables) : Prop :=
  t.constants <+: u.constants ∧ t.registers <+: u.registers

theorem Tables.Within.trans {t u v : Tables} (h : t.Within u) (h' : u.Within v) : t.Within v :=
  ⟨h.1.trans h'.1, h.2.trans h'.2⟩

namespace Draft

/-- One draft is another with cells appended, and numbers perhaps. -/
structure Grown (d : Draft) (cells : List Cell) (d' : Draft) : Prop where
  code : d'.code = d.code ++ cells.map Cell.blank
  fixups : d'.fixups = d.fixups ++ Cell.holes d.code.length cells
  tables : d.tables.Within d'.tables

theorem Grown.trans {d d₁ d₂ : Draft} {cells cells' : List Cell} (h : d.Grown cells d₁)
    (h' : d₁.Grown cells' d₂) : d.Grown (cells ++ cells') d₂ where
  code := by rw [h'.code, h.code, List.map_append, List.append_assoc]
  fixups := by
    rw [h'.fixups, h.fixups, h.code, Cell.holes_append, List.length_append, List.length_map,
      List.append_assoc]
  tables := h.tables.trans h'.tables

theorem Grown.length {d d' : Draft} {cells : List Cell} (h : d.Grown cells d') :
    d'.code.length = d.code.length + cells.length := by
  rw [h.code, List.length_append, List.length_map]

/-- Laying out a part of a tree appended its instructions, once the holes among
them are filled. -/
def Emits (d : Draft) (layout : Tables → (Label → Option Nat) → Option (List Instr)) (size : Nat)
    (d' : Draft) : Prop :=
  ∃ cells, d.Grown cells d' ∧ cells.length = size ∧
    ∀ t address bytes, d'.tables.Within t →
      (∀ l, d.labels.length ≤ l → l < d'.labels.length → address l = d'.address? l) →
      cells.mapM (Cell.fill address) = some bytes →
      ∃ is, layout t address = some is ∧ assemble is = bytes

/-- The second of two stretches of work leaves the labels of the first alone. -/
structure Keeps (d d₁ d₂ : Draft) : Prop where
  first : d.labels.length ≤ d₁.labels.length
  second : d₁.labels.length ≤ d₂.labels.length
  address : ∀ l, d.labels.length ≤ l → l < d₁.labels.length → d₂.address? l = d₁.address? l

theorem getD_set_self {labels : List (Option Nat)} {k : Nat} (hk : k < labels.length)
    (a : Option Nat) : (labels.set k a).getD k none = a := by
  rw [List.getD_eq_getElem?_getD, List.getElem?_set_self hk, Option.getD_some]

theorem getD_set_of_ne (labels : List (Option Nat)) {k l : Nat} (h : k ≠ l) (a : Option Nat) :
    (labels.set k a).getD l none = labels.getD l none := by
  rw [List.getD_eq_getElem?_getD, List.getElem?_set_ne h, List.getD_eq_getElem?_getD]

/-- Marking a label that was added later leaves the old ones alone. -/
theorem prefix_set {labels labels' : List (Option Nat)} (h : labels <+: labels') {k : Nat}
    (hk : labels.length ≤ k) (a : Option Nat) : labels <+: labels'.set k a := by
  obtain ⟨tail, rfl⟩ := h
  rw [List.set_append_right _ _ hk]
  exact List.prefix_append ..

/-- A label keeps its address when labels are added. -/
theorem address?_mono {d : Draft} {labels : List (Option Nat)} (h : labels <+: d.labels)
    {l : Nat} (hl : l < labels.length) : d.address? l = labels.getD l none := by
  obtain ⟨tail, htail⟩ := h
  rw [address?, ← htail, List.getD_eq_getElem?_getD, List.getElem?_append_left hl,
    List.getD_eq_getElem?_getD]

/-- An old label may be marked, and labels may be added. -/
theorem keeps_of_set {d d₁ d₂ : Draft} {k : Nat} {a : Option Nat}
    (hfirst : d.labels.length ≤ d₁.labels.length) (hk : k < d.labels.length)
    (h : d₁.labels.set k a <+: d₂.labels) : Keeps d d₁ d₂ := by
  have hlength : (d₁.labels.set k a).length = d₁.labels.length := List.length_set
  refine ⟨hfirst, hlength ▸ h.length_le, fun l hl hl₁ => ?_⟩
  rw [address?_mono h (by omega), getD_set_of_ne _ (by omega), address?]

theorem keeps_mono {d d₁ d₂ : Draft} (hfirst : d.labels.length ≤ d₁.labels.length)
    (h : d₁.labels <+: d₂.labels) : Keeps d d₁ d₂ :=
  ⟨hfirst, h.length_le, fun _ _ hl₁ => address?_mono h hl₁⟩

theorem keeps_of_eq {d d₁ d₂ : Draft} (h₁ : d₁.labels = d.labels) (h₂ : d₂.labels = d₁.labels) :
    Keeps d d₁ d₂ :=
  keeps_mono (Nat.le_of_eq (congrArg List.length h₁.symm)) (h₂ ▸ List.prefix_rfl)

/-- Two stretches of work one after the other. -/
theorem Emits.seq {d d₁ d₂ : Draft} {f g : Tables → (Label → Option Nat) → Option (List Instr)}
    {m n : Nat} (h : d.Emits f m d₁) (h' : d₁.Emits g n d₂) (hkeeps : Keeps d d₁ d₂) :
    d.Emits (fun t address => do
      let is ← f t address
      let js ← g t address
      return is ++ js) (m + n) d₂ := by
  obtain ⟨cells, hgrown, rfl, hlayout⟩ := h
  obtain ⟨cells', hgrown', rfl, hlayout'⟩ := h'
  refine ⟨cells ++ cells', hgrown.trans hgrown', List.length_append, ?_⟩
  intro t address bytes ht haddress hfill
  obtain ⟨front, back, hfront, hback, rfl⟩ := Cell.mapM_fill_append hfill
  obtain ⟨is, his, rfl⟩ := hlayout t address front (hgrown'.tables.trans ht)
    (fun l hl hl₁ => by
      rw [haddress l hl (Nat.lt_of_lt_of_le hl₁ hkeeps.second), hkeeps.address l hl hl₁]) hfront
  obtain ⟨js, hjs, rfl⟩ := hlayout' t address back ht
    (fun l hl hl₂ => haddress l (Nat.le_trans hkeeps.first hl) hl₂) hback
  exact ⟨is ++ js, by simp only [his, hjs]; rfl, assemble_append ..⟩

/-- Laying out a part makes the code longer by the size of that part. -/
theorem Emits.length {d d' : Draft} {f : Tables → (Label → Option Nat) → Option (List Instr)}
    {n : Nat} (h : d.Emits f n d') : d'.code.length = d.code.length + n := by
  obtain ⟨cells, hgrown, rfl, -⟩ := h
  exact hgrown.length

theorem Emits.tables {d d' : Draft} {f : Tables → (Label → Option Nat) → Option (List Instr)}
    {n : Nat} (h : d.Emits f n d') : d.tables.Within d'.tables := by
  obtain ⟨cells, hgrown, -⟩ := h
  exact hgrown.tables

/-- The layout may be replaced by one that yields the same instructions. -/
theorem Emits.mono {d d' : Draft} {f g : Tables → (Label → Option Nat) → Option (List Instr)}
    {n : Nat} (h : d.Emits f n d') (hfg : ∀ t address is, f t address = some is →
      g t address = some is) : d.Emits g n d' := by
  obtain ⟨cells, hgrown, hlength, hlayout⟩ := h
  refine ⟨cells, hgrown, hlength, fun t address bytes ht haddress hfill => ?_⟩
  obtain ⟨is, his, hbytes⟩ := hlayout t address bytes ht haddress hfill
  exact ⟨is, hfg t address is his, hbytes⟩

/-- Labels may be made before a part is laid out and marked afterwards.  What is known
of their addresses goes into the layout. -/
theorem Emits.relabel {d d₁ : Draft} {before after : List (Option Nat)}
    {f g : Tables → (Label → Option Nat) → Option (List Instr)} {n : Nat}
    (h : (d.withLabels before).Emits f n d₁) (hbefore : d.labels.length ≤ before.length)
    (hafter : d₁.labels.length ≤ after.length)
    (hkeep : ∀ l, before.length ≤ l → l < d₁.labels.length →
      after.getD l none = d₁.address? l)
    (hfg : ∀ t address is,
      (∀ l, d.labels.length ≤ l → l < after.length → address l = after.getD l none) →
      f t address = some is → g t address = some is) :
    d.Emits g n (d₁.withLabels after) := by
  obtain ⟨cells, hgrown, hlength, hlayout⟩ := h
  refine ⟨cells, ⟨hgrown.code, hgrown.fixups, hgrown.tables⟩, hlength, ?_⟩
  intro t address bytes ht haddress hfill
  obtain ⟨is, his, hbytes⟩ := hlayout t address bytes ht (fun l hl hl₁ =>
    (haddress l (Nat.le_trans hbefore hl) (Nat.lt_of_lt_of_le hl₁ hafter)).trans
      (hkeep l hl hl₁)) hfill
  exact ⟨is, hfg t address is haddress his, hbytes⟩

/-- Labels that were there before may be marked before a part is laid out. -/
theorem Emits.mark {d d₁ : Draft} {k : Nat} {a : Option Nat}
    {f : Tables → (Label → Option Nat) → Option (List Instr)} {n : Nat}
    (h : (d.withLabels (d.labels.set k a)).Emits f n d₁) : d.Emits f n d₁ := by
  have hlength : (d.labels.set k a).length = d.labels.length := List.length_set
  have hmarked : d.Emits f n (d₁.withLabels d₁.labels) :=
    h.relabel (Nat.le_of_eq hlength.symm) (Nat.le_refl _) (fun _ _ _ => rfl)
      fun _ _ _ _ his => his
  exact hmarked

/-- Work that leaves no holes. -/
theorem emits_settled {d d' : Draft} {f : Tables → (Label → Option Nat) → Option (List Instr)}
    (is : List Instr) (hcode : d'.code = d.code ++ assemble is) (hfixups : d'.fixups = d.fixups)
    (htables : d.tables.Within d'.tables)
    (hlayout : ∀ t address, d'.tables.Within t → f t address = some is) :
    d.Emits f (Code.size is) d' := by
  refine ⟨Cell.ofBytes (assemble is), ⟨?_, ?_, htables⟩, ?_, ?_⟩
  · rw [hcode, Cell.map_blank_ofBytes]
  · rw [hfixups, Cell.holes_ofBytes, List.append_nil]
  · rw [Cell.length_ofBytes, length_assemble]
  · intro t address bytes ht _ hfill
    rw [Cell.mapM_fill_ofBytes] at hfill
    exact ⟨is, hlayout t address ht, Option.some.inj hfill⟩

/-- Instructions that are appended as they are. -/
theorem emits_withCode (d : Draft) (is : List Instr) :
    d.Emits (fun _ _ => some is) (Code.size is) (d.withCode (d.code ++ assemble is)) :=
  emits_settled is rfl rfl ⟨List.prefix_rfl, List.prefix_rfl⟩ fun _ _ _ => rfl

/-- A part of a tree and one more instruction. -/
theorem Emits.snoc {d d₁ : Draft} {f : Tables → (Label → Option Nat) → Option (List Instr)}
    {m : Nat} (h : d.Emits f m d₁) (hlabels : d₁.labels = d.labels) (i : Instr) :
    d.Emits (fun t address => do
      let is ← f t address
      return is ++ [i]) (m + i.size) (d₁.withCode (d₁.code ++ assemble [i])) :=
  h.seq (emits_withCode d₁ [i]) (keeps_of_eq hlabels rfl)

theorem emits_nil (d : Draft) : d.Emits (fun _ _ => some []) 0 d :=
  emits_settled [] (List.append_nil _).symm rfl ⟨List.prefix_rfl, List.prefix_rfl⟩ fun _ _ _ => rfl

/-- A jump that waits for a label. -/
theorem emits_hole {op : Opcode} (make : UInt8 → Instr) {l : Label} {d d' : Draft} {u : Unit}
    (hmake : ∀ b, (make b).bytes = [op.toByte, b])
    (h : (emitJump op l).perform d = (.ok u, d')) :
    d.Emits (fun _ address => ((address l).bind byte?).bind fun b => some [make b]) 2 d' ∧
      d'.labels = d.labels := by
  obtain rfl := emitJump_ok h
  refine ⟨⟨[.byte op.toByte, .hole l], ⟨rfl, rfl, List.prefix_rfl, List.prefix_rfl⟩, rfl, ?_⟩, rfl⟩
  intro t address bytes _ _ hfill
  have hsplit : ([Cell.byte op.toByte] ++ [Cell.hole l]).mapM (Cell.fill address) = some bytes :=
    hfill
  obtain ⟨front, back, hfront, hback, rfl⟩ := Cell.mapM_fill_append hsplit
  cases hfront
  cases hb : (address l).bind byte? with
  | none =>
    rw [List.mapM_cons, Cell.fill, hb] at hback
    cases hback
  | some b =>
    rw [List.mapM_cons, Cell.fill, hb] at hback
    cases hback
    exact ⟨[make b], by simp only [hb, Option.bind_some], by rw [assemble_cons, hmake]; rfl⟩

end Draft

/-! ## Expressions -/

/-- An operator is appended as its instruction. -/
theorem emit_operator_ok {operators : List (String × Opcode)} {op : String} {opcode : Opcode}
    (hop : operators.lookup op = some opcode) {d d' : Draft} {u : Unit}
    (h : (Draft.emit opcode []).perform d = (.ok u, d')) :
    ∃ i, operator? operators op = some i ∧ i.size = 1 ∧
      d' = d.withCode (d.code ++ assemble [i]) := by
  obtain ⟨hwidth, rfl⟩ := emit_ok h
  obtain ⟨i, hi, hbytes⟩ := Instr.exists_instr?_of_width hwidth.symm
  refine ⟨i, by rw [operator?, hop]; exact hi, ?_, ?_⟩
  · rw [← Instr.length_bytes, hbytes]
    rfl
  · rw [assemble_cons, assemble_nil, List.append_nil, hbytes]

/-- An instruction with an operand of one byte is appended as it is. -/
theorem emitByte_instr {op : Opcode} (make : UInt8 → Instr)
    (hmake : ∀ b, (make b).bytes = [op.toByte, b]) {n : Int} {d d' : Draft} {u : Unit}
    (h : (emitByte op n).perform d = (.ok u, d')) :
    ∃ b, byte? n.toNat = some b ∧ d' = d.withCode (d.code ++ assemble [make b]) := by
  obtain ⟨b, hb, rfl⟩ := emitByte_ok h
  refine ⟨b, hb, ?_⟩
  rw [assemble_cons, assemble_nil, List.append_nil, hmake]

theorem emitLiteral_ok {pos : Pos} {value : Option Scalar} {d d' : Draft} {u : Unit}
    (h : (emitLiteral pos value).perform d = (.ok u, d')) :
    d.Emits (fun t _ => literalInstrs? t value) (Expr.size (.literal pos value)) d' ∧
      d'.labels = d.labels := by
  match value with
  | some (.bool b) =>
    obtain ⟨c, hc, rfl⟩ := emitByte_ok h
    have hbyte : c = if b then 1 else 0 := by
      cases b <;> cases hc <;> rfl
    subst hbyte
    exact ⟨emits_withCode d [.pushBool b], rfl⟩
  | some (.int n) =>
    rw [emitLiteral] at h
    split at h
    · rename_i hn
      rw [emitWord_of_mem _ hn] at h
      obtain ⟨-, rfl⟩ := emit_ok h
      exact ⟨(emits_withCode d [.pushInt n]).mono fun t _ is his => by
        rw [literalInstrs?, if_pos hn]; exact his, rfl⟩
    · cases h
  | some (.text s) =>
    obtain ⟨i, d₁, h₁, h₂⟩ := Emit.bind_ok h
    obtain ⟨constants, rfl, hnumbers, hi⟩ := constant_ok h₁
    obtain ⟨b, hb, rfl⟩ := emitByte_instr .loadConstant (fun _ => rfl) h₂
    refine ⟨emits_settled [.loadConstant b] rfl rfl ⟨hnumbers, List.prefix_rfl⟩ ?_, rfl⟩
    intro t _ ht
    rw [literalInstrs?, Tables.constant?, idxOf?_mono ht.1 hi, Option.bind_some]
    rw [Int.toNat_natCast] at hb
    rw [hb]
    rfl
  | some (.real x) => cases h
  | none => cases h

mutual

/-- An expression is laid out as the direct layout has it. -/
theorem Expr.emits_emit : ∀ (e : Expr) {d d' : Draft} {u : Unit},
    e.emit.perform d = (.ok u, d') →
    d.Emits (fun t _ => e.instrs? t) e.size d' ∧ d'.labels = d.labels
  | .literal pos value, _, _, _, h => by
    rw [Expr.emit] at h
    exact emitLiteral_ok h
  | .identifier pos name, d, d', u, h => by
    rw [Expr.emit] at h
    obtain ⟨i, d₁, h₁, h₂⟩ := Emit.bind_ok h
    obtain ⟨rfl, hi⟩ := lookup_ok h₁
    obtain ⟨b, hb, rfl⟩ := emitByte_instr .loadRegister (fun _ => rfl) h₂
    refine ⟨emits_settled [.loadRegister b] rfl rfl
      ⟨List.prefix_rfl, List.prefix_rfl⟩ ?_, rfl⟩
    intro t _ ht
    rw [Int.toNat_natCast] at hb
    rw [Expr.instrs?, Tables.register?, idxOf?_mono ht.2 hi, Option.bind_some, hb]
    rfl
  | .unary pos op operand, d, d', u, h => by
    rw [Expr.emit] at h
    rw [Expr.size]
    split at h
    · rename_i hleast
      rw [emitWord_of_mem _ (by decide)] at h
      obtain ⟨-, rfl⟩ := emit_ok h
      rw [if_pos hleast]
      exact ⟨(emits_withCode d [.pushInt Word32.least]).mono fun t _ is his => by
        rw [Expr.instrs?, if_pos hleast]; exact his, rfl⟩
    · rename_i hleast
      obtain ⟨_, d₁, h₁, h₂⟩ := Emit.bind_ok h
      obtain ⟨hoperand, hlabels⟩ := Expr.emits_emit operand h₁
      rw [if_neg hleast]
      split at h₂
      · rename_i opcode hopcode
        obtain ⟨i, hi, hsize, rfl⟩ := emit_operator_ok hopcode h₂
        rw [← hsize]
        refine ⟨(hoperand.snoc hlabels i).mono fun t _ is his => ?_, hlabels⟩
        rw [Expr.instrs?, if_neg hleast, hi]
        exact his
      · cases h₂
  | .binary pos left op right, d, d', u, h => by
    rw [Expr.emit] at h
    rw [Expr.size]
    split at h
    · rename_i opcode hopcode
      obtain ⟨_, d₁, h₁, h⟩ := Emit.bind_ok h
      obtain ⟨_, d₂, h₂, h₃⟩ := Emit.bind_ok h
      obtain ⟨hleft, hlabels₁⟩ := Expr.emits_emit left h₁
      obtain ⟨hright, hlabels₂⟩ := Expr.emits_emit right h₂
      obtain ⟨i, hi, hsize, rfl⟩ := emit_operator_ok hopcode h₃
      have hlabels : d₂.labels = d.labels := hlabels₂.trans hlabels₁
      have hboth := hleft.seq hright (keeps_of_eq hlabels₁ hlabels₂)
      rw [← hsize]
      refine ⟨(hboth.snoc hlabels i).mono fun t _ is his => ?_, hlabels⟩
      rw [Expr.instrs?, hi]
      simpa [Option.bind_assoc] using his
    · cases h
  | .call pos name args, d, d', u, h => by
    rw [Expr.emit] at h
    rw [Expr.size]
    split at h
    · rename_i builtin hname
      split at h
      · rename_i harity
        obtain ⟨_, d₁, h₁, h₂⟩ := Emit.bind_ok h
        obtain ⟨hargs, hlabels⟩ := Expr.emits_emitList args h₁
        obtain ⟨b, hb, rfl⟩ := emitByte_instr .callBuiltin (fun _ => rfl) h₂
        have hid : b = UInt8.ofNat builtin.id := by
          cases builtin <;> cases hb <;> rfl
        subst hid
        have hcall := hargs.snoc hlabels (.callBuiltin (UInt8.ofNat builtin.id))
        refine ⟨hcall.mono fun t _ is his => ?_, hlabels⟩
        rw [Expr.instrs?, hname]
        simpa [harity] using his
      · cases h
    · cases h
  | .misplaced kind, d, d', u, h => by
    rw [Expr.emit] at h
    cases h

/-- Expressions are laid out one after the other. -/
theorem Expr.emits_emitList : ∀ (es : List Expr) {d d' : Draft} {u : Unit},
    (Expr.emitList es).perform d = (.ok u, d') →
    d.Emits (fun t _ => Expr.instrsList? t es) (Expr.sizeList es) d' ∧ d'.labels = d.labels
  | [], d, d', u, h => by
    rw [Expr.emitList] at h
    cases h
    exact ⟨(emits_nil d).mono fun t _ is his => by rw [Expr.instrsList?]; exact his, rfl⟩
  | e :: es, d, d', u, h => by
    rw [Expr.emitList] at h
    obtain ⟨_, d₁, h₁, h₂⟩ := Emit.bind_ok h
    obtain ⟨he, hlabels₁⟩ := Expr.emits_emit e h₁
    obtain ⟨hes, hlabels₂⟩ := Expr.emits_emitList es h₂
    have hboth := he.seq hes (keeps_of_eq hlabels₁ hlabels₂)
    refine ⟨hboth.mono fun t _ is his => ?_, hlabels₂.trans hlabels₁⟩
    rw [Expr.instrsList?]
    exact his

end

/-! ## Statements -/

/-- What is known of a statement, or a block, that was laid out. -/
def EmitsStmt (loopEnd : Option Label) (d : Draft)
    (layout : Tables → Option Nat → Nat → Option (List Instr)) (size : Nat) (d' : Draft) : Prop :=
  d.Emits (fun t address => layout t (loopEnd.bind address) d.code.length) size d' ∧
    d.labels <+: d'.labels

/-- What is known of a chain that was laid out. -/
def EmitsChain (loopEnd : Option Label) (finish next : Nat) (d : Draft) (rest : Chain)
    (d' : Draft) : Prop :=
  d.Emits (fun t address =>
    rest.instrs? t (loopEnd.bind address) ((address finish).getD 0) d.code.length) rest.size d' ∧
    d.labels.set next (some (d.code.length + rest.entry)) <+: d'.labels

/-- A test with its block and what follows it, given what is known of the block and
of what follows it. -/
theorem emits_clause {loopEnd : Option Label} {finish next : Nat} {cond : Expr}
    {body : List Stmt} {rest : Chain} {d d' : Draft} {u : Unit}
    (hbody : ∀ {d d' : Draft} {u : Unit}, (Stmt.emitList loopEnd body).perform d = (.ok u, d') →
      EmitsStmt loopEnd d (fun t e a => Stmt.instrsList? t e a body) (Stmt.sizeList body) d')
    (hrest : ∀ {d d' : Draft} {u : Unit}, next < d.labels.length →
      (rest.emit loopEnd finish next).perform d = (.ok u, d') →
      EmitsChain loopEnd finish next d rest d')
    (hnext : next < d.labels.length) {d₁ d₂ d₃ : Draft} {u₁ u₂ u₃ : Unit}
    (h₁ : cond.emit.perform d = (.ok u₁, d₁))
    (h₂ : (emitJump .jumpIfFalse next).perform d₁ = (.ok u₂, d₂))
    (h₃ : (Stmt.emitList loopEnd body).perform d₂ = (.ok u₃, d₃))
    (h₄ : (rest.emit loopEnd finish next).perform d₃ = (.ok u, d')) :
    d.Emits (fun t address => do
      let test ← cond.instrs? t
      let branch ← (address next).bind branchTo?
      let block ← Stmt.instrsList? t (loopEnd.bind address) (d.code.length + cond.size + 2) body
      let others ← rest.instrs? t (loopEnd.bind address) ((address finish).getD 0)
        (d.code.length + cond.size + 2 + Stmt.sizeList body)
      return test ++ [branch] ++ block ++ others)
      (cond.size + 2 + Stmt.sizeList body + rest.size) d' ∧
    d.labels.set next
      (some (d.code.length + cond.size + 2 + Stmt.sizeList body + rest.entry)) <+: d'.labels := by
  obtain ⟨htest, hlabels₁⟩ := Expr.emits_emit cond h₁
  obtain ⟨hbranch, hlabels₂⟩ := emits_hole .jumpIfFalse (fun _ => rfl) h₂
  obtain ⟨hblock, hlabels₃⟩ := hbody h₃
  have hlabels : d₂.labels = d.labels := hlabels₂.trans hlabels₁
  have hle : d.labels.length ≤ d₃.labels.length := hlabels ▸ hlabels₃.length_le
  obtain ⟨hothers, hlabels₄⟩ := hrest (Nat.lt_of_lt_of_le hnext hle) h₄
  have hall := ((htest.seq hbranch (keeps_of_eq hlabels₁ hlabels₂)).seq hblock
    (keeps_mono (Nat.le_of_eq (congrArg List.length hlabels.symm)) hlabels₃)).seq hothers
      (keeps_of_set hle hnext hlabels₄)
  have hstart : d₂.code.length = d.code.length + cond.size + 2 := by
    rw [hbranch.length, htest.length]
  have hend : d₃.code.length = d.code.length + cond.size + 2 + Stmt.sizeList body := by
    rw [hblock.length, hstart]
  refine ⟨hall.mono fun t address is his => ?_, ?_⟩
  · simp only [hstart, hend] at his
    simpa [Option.bind_assoc, branchTo?, Option.bind_map, Function.comp_def] using his
  · obtain ⟨tail, htail⟩ := hlabels₃
    refine List.IsPrefix.trans ?_ hlabels₄
    rw [hend, ← hlabels, ← htail, List.set_append_left _ _ (by rwa [hlabels])]
    exact List.prefix_append ..

/-- A value and the instruction that stores it. -/
theorem emits_store (loopEnd : Option Label) {d d₁ : Draft} {e : Expr} {name : String} {i : Nat}
    {b : UInt8} {registers : List String}
    (h : d.Emits (fun t _ => e.instrs? t) e.size d₁) (hlabels : d₁.labels = d.labels)
    (hnumbers : d₁.registers <+: registers) (hi : registers.idxOf? name = some i)
    (hb : byte? i = some b) :
    EmitsStmt loopEnd d (fun t _ _ => do
      let is ← e.instrs? t
      let r ← t.register? name
      return is ++ [.storeRegister r]) (e.size + 2)
      { d₁ with code := d₁.code ++ assemble [.storeRegister b], registers := registers } := by
  have hstore : d₁.Emits (fun t _ => (t.register? name).map fun r => [.storeRegister r]) 2
      { d₁ with code := d₁.code ++ assemble [.storeRegister b], registers := registers } := by
    refine emits_settled [.storeRegister b] rfl rfl ⟨List.prefix_rfl, hnumbers⟩ fun t _ ht => ?_
    rw [Tables.register?, idxOf?_mono ht.2 hi, Option.bind_some, hb]
    rfl
  refine ⟨(h.seq hstore (keeps_of_eq hlabels rfl)).mono fun t _ is his => ?_,
    hlabels ▸ List.prefix_rfl⟩
  simpa [Option.bind_map, Function.comp_def] using his

/-- A conditional and a loop make two labels for themselves.  One is marked somewhere within, and the
other one, which `finish` is here, behind all of it. -/
theorem emits_enclosed {loopEnd : Option Label} {d d₁ : Draft} {before : List (Option Nat)}
    {finish other target size : Nat} {f : Tables → (Label → Option Nat) → Option (List Instr)}
    {layout : Tables → Option Nat → Nat → Option (List Instr)}
    (h : (d.withLabels before).Emits f size d₁) (hbefore : before.length = d.labels.length + 2)
    (hmade : finish = d.labels.length ∧ other = d.labels.length + 1 ∨
      finish = d.labels.length + 1 ∧ other = d.labels.length)
    (hlabels : (d.labels ++ [none] ++ [none]).set other (some target) <+: d₁.labels)
    (hlayout : ∀ t address is, address finish = some (d.code.length + size) →
      address other = some target → f t address = some is →
      layout t (loopEnd.bind address) d.code.length = some is) :
    EmitsStmt loopEnd d layout size
      (d₁.withLabels (d₁.labels.set finish (some d₁.code.length))) := by
  have hlength : (d.labels ++ [none] ++ [none]).length = d.labels.length + 2 := by simp
  have hle := hlabels.length_le
  rw [List.length_set] at hle
  have hend : d₁.code.length = d.code.length + size := h.length
  have hother : d₁.address? other = some target := by
    rw [address?_mono hlabels (by rw [List.length_set]; omega), getD_set_self (by omega)]
  refine ⟨h.relabel (by omega) (Nat.le_of_eq List.length_set.symm) ?_ ?_, ?_⟩
  · intro l hl _
    exact getD_set_of_ne _ (by omega) _
  · intro t address is haddress his
    refine hlayout t address is ?_ ?_ his
    · rw [haddress finish (by omega) (by rw [List.length_set]; omega), getD_set_self (by omega),
        hend]
    · rw [haddress other (by omega) (by rw [List.length_set]; omega),
        getD_set_of_ne _ (by omega), ← hother, address?]
  · rw [withLabels_labels]
    refine prefix_set (List.IsPrefix.trans ?_ hlabels) (by omega) _
    rw [List.append_assoc]
    exact prefix_set (List.prefix_append ..) (by omega) _

/-- The jump that a block ends with if something follows it, and what follows it, where the test in
front of the block goes on if it fails. -/
theorem emits_exit {finish next size : Nat} {d d₁ d' : Draft} {u : Unit}
    {f : Tables → (Label → Option Nat) → Option (List Instr)} (hnext : next < d.labels.length)
    (hexit : (emitJump .jump finish).perform d = (.ok u, d₁)) (h : d₁.Emits f size d')
    (hlabels : d₁.labels.set next (some d₁.code.length) <+: d'.labels) :
    d.Emits (fun t address => do
      let exit ← jumpTo? ((address finish).getD 0)
      let is ← f t address
      return [exit] ++ is) (2 + size) d' ∧
    d.labels.set next (some (d.code.length + 2)) <+: d'.labels := by
  obtain ⟨hjump, hsame⟩ := emits_hole .jump (fun _ => rfl) hexit
  have hboth := hjump.seq h (keeps_of_set (Nat.le_of_eq (by rw [hsame])) hnext hlabels)
  refine ⟨hboth.mono fun t address is his => ?_, ?_⟩
  · cases hfinish : address finish with
    | none =>
      rw [hfinish] at his
      cases his
    | some a =>
      simpa [jumpTo?, hfinish, Option.bind_map, Function.comp_def, Option.bind_assoc] using his
  · rw [← hjump.length, ← hsame]
    exact hlabels

mutual

/-- A statement is laid out as the direct layout has it. -/
theorem Stmt.emits_emit (loopEnd : Option Label) : ∀ (s : Stmt) {d d' : Draft} {u : Unit},
    (s.emit loopEnd).perform d = (.ok u, d') →
    EmitsStmt loopEnd d (fun t e a => s.instrs? t e a) s.size d'
  | .exprStmt pos e, d, d', u, h => by
    rw [Stmt.emit] at h
    rw [Stmt.size]
    obtain ⟨he, hlabels⟩ := Expr.emits_emit e h
    exact ⟨he.mono fun t _ is his => by simpa only [Stmt.instrs?] using his,
      hlabels ▸ List.prefix_rfl⟩
  | .letDecl pos name value, d, d', u, h => by
    rw [Stmt.emit] at h
    rw [Stmt.size]
    obtain ⟨_, d₁, h₁, h⟩ := Emit.bind_ok h
    obtain ⟨i, d₂, h₂, h₃⟩ := Emit.bind_ok h
    obtain ⟨hvalue, hlabels⟩ := Expr.emits_emit value h₁
    obtain ⟨registers, rfl, hnumbers, hi⟩ := allocate_ok h₂
    obtain ⟨b, hb, rfl⟩ := emitByte_instr .storeRegister (fun _ => rfl) h₃
    rw [Int.toNat_natCast] at hb
    obtain ⟨hemits, hgrow⟩ := emits_store loopEnd hvalue hlabels hnumbers hi hb
    exact ⟨hemits.mono fun t _ is his => by simpa only [Stmt.instrs?] using his, hgrow⟩
  | .assign pos name value, d, d', u, h => by
    rw [Stmt.emit] at h
    rw [Stmt.size]
    obtain ⟨i, d₀, h₀, h⟩ := Emit.bind_ok h
    obtain ⟨_, d₁, h₁, h₂⟩ := Emit.bind_ok h
    obtain ⟨rfl, hi⟩ := lookup_ok h₀
    obtain ⟨hvalue, hlabels⟩ := Expr.emits_emit value h₁
    obtain ⟨b, hb, rfl⟩ := emitByte_instr .storeRegister (fun _ => rfl) h₂
    rw [Int.toNat_natCast] at hb
    have hregisters : d₀.registers <+: d₁.registers := hvalue.tables.2
    obtain ⟨hemits, hgrow⟩ := emits_store loopEnd hvalue hlabels List.prefix_rfl
      (idxOf?_mono hregisters hi) hb
    exact ⟨hemits.mono fun t _ is his => by simpa only [Stmt.instrs?] using his, hgrow⟩
  | .returning pos none, d, d', u, h => by
    rw [Stmt.emit] at h
    rw [Stmt.size]
    obtain ⟨-, rfl⟩ := emit_ok h
    exact ⟨(emits_withCode d [.ret]).mono fun t _ is his => by simpa only [Stmt.instrs?] using his,
      List.prefix_rfl⟩
  | .returning pos (some value), d, d', u, h => by
    rw [Stmt.emit] at h
    rw [Stmt.size]
    obtain ⟨_, d₁, h₁, h₂⟩ := Emit.bind_ok h
    obtain ⟨hvalue, hlabels⟩ := Expr.emits_emit value h₁
    obtain ⟨-, rfl⟩ := emit_ok h₂
    exact ⟨(hvalue.snoc hlabels .ret).mono fun t _ is his => by simpa only [Stmt.instrs?] using his,
      hlabels ▸ List.prefix_rfl⟩
  | .breaking pos, d, d', u, h => by
    rw [Stmt.size]
    cases loopEnd with
    | none =>
      rw [Stmt.emit] at h
      cases h
    | some l =>
      rw [Stmt.emit] at h
      obtain ⟨hjump, hlabels⟩ := emits_hole .jump (fun _ => rfl) h
      refine ⟨hjump.mono fun t address is his => ?_, hlabels ▸ List.prefix_rfl⟩
      simpa [Stmt.instrs?, jumpTo?, Option.bind_assoc, Option.bind_map, Function.comp_def] using his
  | .conditional pos cond body rest, d, d', u, h => by
    rw [Stmt.emit] at h
    rw [Stmt.size]
    obtain ⟨finish, d₁, h₁, h⟩ := Emit.bind_ok h
    obtain ⟨next, d₂, h₂, h⟩ := Emit.bind_ok h
    obtain ⟨_, d₃, h₃, h⟩ := Emit.bind_ok h
    obtain ⟨_, d₄, h₄, h⟩ := Emit.bind_ok h
    obtain ⟨_, d₅, h₅, h⟩ := Emit.bind_ok h
    obtain ⟨_, d₆, h₆, h₇⟩ := Emit.bind_ok h
    obtain ⟨hfinish, rfl⟩ := newLabel_ok h₁
    obtain ⟨hnext, rfl⟩ := newLabel_ok h₂
    obtain rfl := mark_ok h₇
    simp only [withLabels_withLabels, withLabels_labels, List.length_append,
      List.length_singleton] at hnext h₃
    have hlength : (d.labels ++ [none] ++ [none]).length = d.labels.length + 2 := by simp
    obtain ⟨hclause, hlabels⟩ := emits_clause (d := d.withLabels (d.labels ++ [none] ++ [none]))
      (Stmt.emits_emitList loopEnd body) (Chain.emits_emit loopEnd finish next rest)
      (by rw [withLabels_labels]; omega) h₃ h₄ h₅ h₆
    simp only [withLabels_labels, withLabels_code] at hclause hlabels
    refine emits_enclosed hclause hlength (.inl ⟨hfinish, hnext⟩) hlabels ?_
    intro t address is hfinished hentered his
    simpa [Stmt.instrs?, hfinished, hentered, Nat.add_assoc] using his
  | .loop pos body, d, d', u, h => by
    rw [Stmt.emit] at h
    rw [Stmt.size]
    obtain ⟨start, d₁, h₁, h⟩ := Emit.bind_ok h
    obtain ⟨finish, d₂, h₂, h⟩ := Emit.bind_ok h
    obtain ⟨_, d₃, h₃, h⟩ := Emit.bind_ok h
    obtain ⟨_, d₄, h₄, h⟩ := Emit.bind_ok h
    obtain ⟨_, d₅, h₅, h₆⟩ := Emit.bind_ok h
    obtain ⟨hstart, rfl⟩ := newLabel_ok h₁
    obtain ⟨hfinish, rfl⟩ := newLabel_ok h₂
    obtain rfl := mark_ok h₃
    obtain ⟨hbody, hlabels⟩ := Stmt.emits_emitList (some finish) body h₄
    obtain ⟨hback, hlabels'⟩ := emits_hole .jump (fun _ => rfl) h₅
    obtain rfl := mark_ok h₆
    have hboth := hbody.seq hback (keeps_mono hlabels.length_le (hlabels' ▸ List.prefix_rfl))
    rw [← hlabels'] at hlabels
    simp only [withLabels_withLabels, withLabels_labels, withLabels_code, List.length_append,
      List.length_singleton] at hstart hfinish hlabels hboth
    have hlength : ((d.labels ++ [none] ++ [none]).set start (some d.code.length)).length =
        d.labels.length + 2 := by simp
    refine emits_enclosed hboth hlength (.inr ⟨hfinish, hstart⟩) hlabels ?_
    intro t address is hfinished hstarted his
    rw [← Nat.add_assoc] at hfinished
    simpa [Stmt.instrs?, jumpTo?, hfinished, hstarted, Option.bind_map, Function.comp_def,
      Option.bind_assoc] using his
  | .fnDecl .., d, d', u, h => by
    rw [Stmt.emit] at h
    cases h
  | .misplaced kind, d, d', u, h => by
    rw [Stmt.emit] at h
    cases h

/-- The statements of a block are laid out one after the other. -/
theorem Stmt.emits_emitList (loopEnd : Option Label) : ∀ (ss : List Stmt) {d d' : Draft} {u : Unit},
    (Stmt.emitList loopEnd ss).perform d = (.ok u, d') →
    EmitsStmt loopEnd d (fun t e a => Stmt.instrsList? t e a ss) (Stmt.sizeList ss) d'
  | [], d, d', u, h => by
    rw [Stmt.emitList] at h
    rw [Stmt.sizeList]
    cases h
    exact ⟨(emits_nil d).mono fun t _ is his => by simpa only [Stmt.instrsList?] using his,
      List.prefix_rfl⟩
  | s :: ss, d, d', u, h => by
    rw [Stmt.emitList] at h
    rw [Stmt.sizeList]
    obtain ⟨_, d₁, h₁, h₂⟩ := Emit.bind_ok h
    obtain ⟨hs, hlabels₁⟩ := Stmt.emits_emit loopEnd s h₁
    obtain ⟨hss, hlabels₂⟩ := Stmt.emits_emitList loopEnd ss h₂
    refine ⟨(hs.seq hss (keeps_mono hlabels₁.length_le hlabels₂)).mono
      fun t _ is his => ?_, hlabels₁.trans hlabels₂⟩
    simpa only [Stmt.instrsList?, hs.length] using his

/-- What follows a block of a conditional is laid out as the direct layout has
it. -/
theorem Chain.emits_emit (loopEnd : Option Label) (finish next : Nat) :
    ∀ (rest : Chain) {d d' : Draft} {u : Unit}, next < d.labels.length →
    (rest.emit loopEnd finish next).perform d = (.ok u, d') →
    EmitsChain loopEnd finish next d rest d'
  | .done, d, d', u, hnext, h => by
    rw [Chain.emit] at h
    obtain rfl := mark_ok h
    refine ⟨?_, List.prefix_rfl⟩
    rw [Chain.size]
    exact emits_settled [] (List.append_nil _).symm rfl ⟨List.prefix_rfl, List.prefix_rfl⟩
      fun t _ _ => by simp only [Chain.instrs?]
  | .otherwise body, d, d', u, hnext, h => by
    rw [Chain.emit] at h
    obtain ⟨_, d₁, h₁, h⟩ := Emit.bind_ok h
    obtain ⟨_, d₂, h₂, h₃⟩ := Emit.bind_ok h
    obtain rfl := mark_ok h₂
    obtain ⟨hbody, hlabels⟩ := Stmt.emits_emitList loopEnd body h₃
    rw [withLabels_labels] at hlabels
    rw [withLabels_code] at hbody
    have hstart := (emits_hole .jump (fun _ => rfl) h₁).1.length
    obtain ⟨hemits, hgrow⟩ := emits_exit hnext h₁ hbody.mark hlabels
    refine ⟨hemits.mono fun t address is his => ?_, hgrow⟩
    simpa [Chain.instrs?, hstart] using his
  | .elseIf cond body rest, d, d', u, hnext, h => by
    rw [Chain.emit] at h
    obtain ⟨_, d₁, h₁, h⟩ := Emit.bind_ok h
    obtain ⟨_, d₂, h₂, h⟩ := Emit.bind_ok h
    obtain ⟨later, d₃, h₃, h⟩ := Emit.bind_ok h
    obtain ⟨_, d₄, h₄, h⟩ := Emit.bind_ok h
    obtain ⟨_, d₅, h₅, h⟩ := Emit.bind_ok h
    obtain ⟨_, d₆, h₆, h₇⟩ := Emit.bind_ok h
    obtain rfl := mark_ok h₂
    obtain ⟨hlater, rfl⟩ := newLabel_ok h₃
    simp only [withLabels_withLabels, withLabels_labels, List.length_set] at hlater h₄
    have hstart := (emits_hole .jump (fun _ => rfl) h₁).1.length
    generalize hbefore : d₁.labels.set next (some d₁.code.length) ++ [none] = before at h₄
    have hlength : before.length = d₁.labels.length + 1 := by simp [← hbefore]
    obtain ⟨hclause, hlabels⟩ := emits_clause (d := d₁.withLabels before)
      (Stmt.emits_emitList loopEnd body) (Chain.emits_emit loopEnd finish later rest)
      (by rw [withLabels_labels]; omega) h₄ h₅ h₆ h₇
    simp only [withLabels_labels, withLabels_code] at hclause hlabels
    have hle := hlabels.length_le
    rw [List.length_set] at hle
    have hgo := address?_mono hlabels (l := later) (by rw [List.length_set]; omega)
    rw [getD_set_self (by omega)] at hgo
    have hrest : d₁.Emits (fun t address => do
        let test ← cond.instrs? t
        let branch ← branchTo? (d₁.code.length + cond.size + 2 + Stmt.sizeList body + rest.entry)
        let block ← Stmt.instrsList? t (loopEnd.bind address) (d₁.code.length + cond.size + 2) body
        let others ← rest.instrs? t (loopEnd.bind address) ((address finish).getD 0)
          (d₁.code.length + cond.size + 2 + Stmt.sizeList body)
        return test ++ [branch] ++ block ++ others)
        (cond.size + 2 + Stmt.sizeList body + rest.size) (d'.withLabels d'.labels) := by
      refine hclause.relabel (by omega) (Nat.le_refl _) (fun _ _ _ => rfl) ?_
      intro t address is haddress his
      have hnextClause : address later = some (d₁.code.length + cond.size + 2 +
          Stmt.sizeList body + rest.entry) := by
        rw [haddress later (by omega) (by omega), ← hgo, address?]
      simpa [hnextClause] using his
    have hgrow : d₁.labels.set next (some d₁.code.length) <+: d'.labels := by
      refine List.IsPrefix.trans ?_ hlabels
      rw [← hbefore]
      exact prefix_set (List.prefix_append ..) (by rw [List.length_set]; omega) _
    obtain ⟨hemits, hentered⟩ := emits_exit hnext h₁ hrest hgrow
    refine ⟨?_, hentered⟩
    rw [Chain.size]
    refine Emits.mono hemits fun t address is his => ?_
    simpa [Chain.instrs?, hstart, Option.bind_assoc] using his

end

/-! ## Programs -/

/-- An image consists of the direct layout of its program, and is short enough to be
addressed. -/
theorem generate_ok {p : Program} {d d' : Draft} {image : Image}
    (h : (Draft.generate p).perform d = (.ok image, d')) :
    ∃ is, p.instrs? ⟨image.constants, d'.registers⟩ = some is ∧ image.code = assemble is ∧
      image.code.length ≤ maxCodeSize := by
  obtain ⟨_, d₁, h₁, h⟩ := Emit.bind_ok h
  obtain ⟨_, d₂, h₂, h⟩ := Emit.bind_ok h
  obtain ⟨_, d₃, h₃, h₄⟩ := Emit.bind_ok h
  cases h₁
  obtain ⟨⟨cells, hgrown, -, hlayout⟩, -⟩ := Stmt.emits_emitList none p.items h₂
  have hcode : d₂.code = cells.map Cell.blank := hgrown.code
  have hfixups : d₂.fixups = Cell.holes 0 cells := hgrown.fixups
  obtain ⟨hsize, bytes, hfill, rfl⟩ := resolve_holes hcode hfixups h₃
  cases h₄
  obtain ⟨is, his, rfl⟩ := hlayout ⟨d₂.constants, d₂.registers⟩ d₂.address? bytes
    ⟨List.prefix_rfl, List.prefix_rfl⟩ (fun _ _ _ => rfl) hfill
  refine ⟨is, his, rfl, ?_⟩
  rw [withCode_code, ← Cell.mapM_fill_length hfill, ← List.length_map, ← hcode]
  exact hsize

end Octet
