import Mathlib.Control.Monad.Basic
import Octet.Proofs.Draft.Growth
import Octet.Proofs.Draft.Mirroring
import Octet.Proofs.Instr.Listing
import Octet.Proofs.Layout.Backpatching

/-!
# Laying out only appends

Whatever tree is laid out, and whether it is laid out or fails somewhere inside, the ledger
afterwards has what it had before and perhaps more behind it (`Ledger.Appends`): no byte and no
entry is changed, the open loops are the same, and a byte that waits for an address now and did not
wait before is the operand of a jump that is new.  This is preserved by every step that a ledger
takes, so it follows from `Stmt.grows`.

A tree that is laid out leaves more behind.  Every label that its jumps wait for is marked by then,
at an address that the code has reached since, but for the label behind the innermost loop
(`Stmt.leads`).  This does not hold of single steps: a jump waits for a label that a later step
marks.  So statements are gone through once more, and the labels that a part leaves to the tree
around it are said along with it (`Ledger.Leads`).  A conditional leaves its own two labels to
nobody, as it marks both before it ends, and neither does a loop.
-/

namespace Octet
namespace Ledger

open Code

/-! ## What every tree leaves behind -/

/-- A label is marked at an address that the code has reached since. -/
def MarkedSince (l l' : Ledger) (k : Label) : Prop :=
  ∃ a, l'.address? k = some a ∧ l.code.length ≤ a ∧ a ≤ l'.code.length

/-- A fixup waits at the operand of a jump among these instructions. -/
def WaitsIn (start : Nat) (is : List Instr) (f : Fixup) : Prop :=
  ∃ a i, (a, i) ∈ locate start is ∧ (i = .jump 0 ∨ i = .jumpIfFalse 0) ∧ f.offset = a + 1

/-- One ledger has what another one had, and perhaps more behind it. -/
structure Appends (l l' : Ledger) : Prop where
  loops : l'.loops = l.loops
  code : ∃ is new, l'.code = l.code ++ assemble is ∧ l'.fixups = l.fixups ++ new ∧
    ∀ f ∈ new, WaitsIn l.code.length is f
  constants : l.constants <+: l'.constants
  numbers : l.numbers <+: l'.numbers
  registers : l.registers <+: l'.registers
  labels : l.labels.length ≤ l'.labels.length
  addresses : ∀ k, l'.address? k = l.address? k ∨ l.MarkedSince l' k

theorem Appends.refl (l : Ledger) : l.Appends l where
  loops := rfl
  code := ⟨[], [], (List.append_nil _).symm, (List.append_nil _).symm, nofun⟩
  constants := List.prefix_rfl
  numbers := List.prefix_rfl
  registers := List.prefix_rfl
  labels := Nat.le_refl _
  addresses _ := .inl rfl

theorem Appends.length_le {l l' : Ledger} (h : l.Appends l') : l.code.length ≤ l'.code.length := by
  obtain ⟨is, -, hcode, -⟩ := h.code
  rw [hcode, List.length_append]
  exact Nat.le_add_right ..

theorem Appends.fixups {l l' : Ledger} (h : l.Appends l') : l.fixups <+: l'.fixups := by
  obtain ⟨-, new, -, hfixups, -⟩ := h.code
  exact ⟨new, hfixups.symm⟩

theorem Appends.loopEnd? {l l' : Ledger} (h : l.Appends l') : l'.loopEnd? = l.loopEnd? := by
  rw [Ledger.loopEnd?, h.loops, Ledger.loopEnd?]

theorem WaitsIn.left {start : Nat} {is : List Instr} {f : Fixup} (h : WaitsIn start is f)
    (js : List Instr) : WaitsIn start (is ++ js) f := by
  obtain ⟨a, i, hmem, hi⟩ := h
  exact ⟨a, i, locate_append start is js ▸ List.mem_append_left _ hmem, hi⟩

theorem WaitsIn.right {start : Nat} {js : List Instr} {f : Fixup} (is : List Instr)
    (h : WaitsIn (start + size is) js f) : WaitsIn start (is ++ js) f := by
  obtain ⟨a, i, hmem, hi⟩ := h
  exact ⟨a, i, locate_append start is js ▸ List.mem_append_right _ hmem, hi⟩

/-- A label that was marked may be marked once more, but not earlier. -/
theorem MarkedSince.trans {l m n : Ledger} {k : Label} (hfirst : l.Appends m)
    (hsecond : m.Appends n) (h : l.MarkedSince m k) : l.MarkedSince n k := by
  obtain ⟨a, ha, hle, hge⟩ := h
  rcases hsecond.addresses k with hsame | ⟨b, hb, hle', hge'⟩
  · exact ⟨a, hsame.trans ha, hle, Nat.le_trans hge hsecond.length_le⟩
  · exact ⟨b, hb, Nat.le_trans hfirst.length_le hle', hge'⟩

theorem MarkedSince.earlier {l m n : Ledger} {k : Label} (hfirst : l.Appends m)
    (h : m.MarkedSince n k) : l.MarkedSince n k := by
  obtain ⟨a, ha, hle, hge⟩ := h
  exact ⟨a, ha, Nat.le_trans hfirst.length_le hle, hge⟩

theorem Appends.trans {l m n : Ledger} (h : l.Appends m) (h' : m.Appends n) : l.Appends n where
  loops := h'.loops.trans h.loops
  code := by
    obtain ⟨is, new, hcode, hfixups, hnew⟩ := h.code
    obtain ⟨js, new', hcode', hfixups', hnew'⟩ := h'.code
    have hstart : m.code.length = l.code.length + size is := by
      rw [hcode, List.length_append, length_assemble]
    refine ⟨is ++ js, new ++ new', ?_, ?_, fun f hf => ?_⟩
    · rw [hcode', hcode, assemble_append, List.append_assoc]
    · rw [hfixups', hfixups, List.append_assoc]
    · rcases List.mem_append.1 hf with hf | hf
      · exact (hnew f hf).left js
      · exact WaitsIn.right is (hstart ▸ hnew' f hf)
  constants := h.constants.trans h'.constants
  numbers := h.numbers.trans h'.numbers
  registers := h.registers.trans h'.registers
  labels := Nat.le_trans h.labels h'.labels
  addresses k := by
    rcases h'.addresses k with hsame | hmarked
    · rcases h.addresses k with hsame' | hmarked'
      · exact .inl (hsame.trans hsame')
      · exact .inr (hmarked'.trans h h')
    · exact .inr (hmarked.earlier h)

/-! ## Steps -/

/-- An instruction, or none, and nothing that waits for an address. -/
theorem appends_withCode (l : Ledger) (is : List Instr) :
    l.Appends (l.withCode (l.code ++ assemble is)) :=
  { Appends.refl l with
    code := ⟨is, [], rfl, (List.append_nil _).symm, nofun⟩
    addresses := fun _ => .inl rfl }

theorem appends_withText (l : Ledger) (x : String) : l.Appends (l.withText x) :=
  { Appends.refl l with
    constants := List.prefix_append ..
    numbers := List.prefix_append .. }

theorem appends_withName (l : Ledger) (x : String) : l.Appends (l.withName x) :=
  { Appends.refl l with registers := List.prefix_append .. }

theorem appends_withJump (l : Ledger) {i : Instr} (hi : i = .jump 0 ∨ i = .jumpIfFalse 0)
    (k : Label) : l.Appends (l.withJump i k) :=
  { Appends.refl l with
    code := by
      refine ⟨[i], [⟨l.code.length + 1, k⟩], by simp [withJump], rfl, fun f hf => ?_⟩
      rw [List.mem_singleton.1 hf]
      exact ⟨l.code.length, i, List.mem_cons_self .., hi, rfl⟩
    addresses := fun _ => .inl rfl }

theorem appends_newLabel (l : Ledger) : l.Appends (l.withLabels (l.labels ++ [none])) :=
  { Appends.refl l with
    labels := by
      rw [withLabels, List.length_append]
      exact Nat.le_add_right ..
    addresses := fun k => by
      refine .inl ?_
      rw [address?, address?, withLabels, List.getD_eq_getElem?_getD, List.getD_eq_getElem?_getD,
        List.getElem?_append]
      split
      · rfl
      · rename_i hge
        rw [List.getElem?_eq_none (Nat.le_of_not_lt hge)]
        cases k - l.labels.length <;> rfl }

/-- A label that there is gets the address that the code has reached. -/
theorem markedSince_mark {l : Ledger} {k : Label} (h : k < l.labels.length) :
    l.MarkedSince (l.withLabels (l.labels.set k (some l.code.length))) k :=
  ⟨l.code.length, Draft.getD_set_self h _, Nat.le_refl _, Nat.le_refl _⟩

theorem appends_mark (l : Ledger) (k : Label) :
    l.Appends (l.withLabels (l.labels.set k (some l.code.length))) :=
  { Appends.refl l with
    labels := Nat.le_of_eq List.length_set.symm
    addresses := fun j => by
      by_cases hjk : k = j
      · subst hjk
        by_cases hk : k < l.labels.length
        · exact .inr (markedSince_mark hk)
        · refine .inl ?_
          rw [withLabels, List.set_eq_of_length_le (Nat.le_of_not_lt hk)]
      · exact .inl (Draft.getD_set_of_ne _ hjk _) }

/-- **Every step only appends.** -/
theorem Grows.appends {b : Bool} {xs ns : List String} {l l' : Ledger} (h : Grows b xs ns l l') :
    l.Appends l' := by
  induction h with
  | refl l => exact .refl l
  | instr l i =>
    have hone := appends_withCode l [i]
    rwa [assemble_cons, assemble_nil, List.append_nil] at hone
  | text => exact appends_withText ..
  | oldText => exact .refl _
  | name => exact appends_withName ..
  | oldName => exact .refl _
  | jump l k hi => exact appends_withJump l hi k
  | label l => exact appends_newLabel l
  | mark l k => exact appends_mark l k
  | loop frame _ ih =>
    -- the frame is all that the loops have in front of those that were open
    refine ⟨?_, ih.code, ih.constants, ih.numbers, ih.registers, ih.labels, ih.addresses⟩
    rw [closed, ih.loops]
    rfl
  | trans _ _ ih ih' => exact ih.trans ih'

/-- An expression has no jumps. -/
theorem Grows.fixups_eq {xs ns : List String} {l l' : Ledger} (h : Grows false xs ns l l') :
    l'.fixups = l.fixups := by
  generalize hb : false = b at h
  induction h with
  | refl | instr | text | oldText | name | oldName => rfl
  | jump | label | mark => cases hb
  | loop frame _ ih => exact ih hb
  | trans _ _ ih ih' => exact (ih' hb).trans (ih hb)

end Ledger

open Entry Ledger

theorem Entry.Grows.appends {α : Type} {b : Bool} {xs ns : List String} {a : Entry α}
    (h : Entry.Grows b xs ns a) (l : Ledger) : l.Appends (a.perform l).2 := by
  obtain ⟨_, _, hgrows, -⟩ := h l
  exact hgrows.appends

namespace Ledger

/-! ## What a tree leaves behind that is laid out -/

/-- One ledger has what another one had, and the labels that jumps wait for since then are marked,
except for these. -/
structure Leads (except : Label → Prop) (l l' : Ledger) : Prop where
  appends : l.Appends l'
  settled : ∀ f ∈ l'.fixups.drop l.fixups.length, except f.target ∨ l.MarkedSince l' f.target

variable {except except' : Label → Prop} {l m n : Ledger}

/-- There are no new jumps. -/
theorem leads_of_fixups (h : l.Appends m) (hfixups : m.fixups = l.fixups) : Leads except l m where
  appends := h
  settled f hf := by
    rw [hfixups, List.drop_length] at hf
    cases hf

theorem leads_withJump {i : Instr} (hi : i = .jump 0 ∨ i = .jumpIfFalse 0) {k : Label}
    (hk : except k) : Leads except l (l.withJump i k) where
  appends := appends_withJump l hi k
  settled f hf := by
    rw [withJump, List.drop_left] at hf
    rw [List.mem_singleton.1 hf]
    exact .inl hk

theorem Leads.trans (h : Leads except l m) (h' : Leads except m n) : Leads except l n where
  appends := h.appends.trans h'.appends
  settled f hf := by
    obtain ⟨new, hnew⟩ := h.appends.fixups
    obtain ⟨new', hnew'⟩ := h'.appends.fixups
    rw [← hnew', ← hnew, List.append_assoc, List.drop_left] at hf
    rcases List.mem_append.1 hf with hf | hf
    · exact (h.settled f (by rwa [← hnew, List.drop_left])).imp_right
        (·.trans h.appends h'.appends)
    · exact (h'.settled f (by rwa [← hnew', List.drop_left])).imp_right (·.earlier h.appends)

/-- Labels that were marked since need not be excepted. -/
theorem Leads.settle (h : Leads except l m)
    (hexcept : ∀ k, except k → except' k ∨ l.MarkedSince m k) : Leads except' l m where
  appends := h.appends
  settled f hf := (h.settled f hf).elim (hexcept f.target) .inr

theorem Leads.mono (h : Leads except l m) (hexcept : ∀ k, except k → except' k) :
    Leads except' l m :=
  h.settle fun k hk => .inl (hexcept k hk)

/-- The label behind the innermost loop. -/
def AtLoopEnd (l : Ledger) (k : Label) : Prop :=
  l.loopEnd? = some k

theorem Appends.atLoopEnd (h : l.Appends m) {k : Label} (hk : m.AtLoopEnd k) : l.AtLoopEnd k :=
  h.loopEnd?.symm.trans hk

/-! ## Actions -/

theorem newLabel_ok {k : Label} (h : newLabel.perform l = (.ok k, m)) :
    k = l.labels.length ∧ m = l.withLabels (l.labels ++ [none]) := by
  cases h
  exact ⟨rfl, rfl⟩

theorem mark_ok {k : Label} {u : Unit} (h : (mark k).perform l = (.ok u, m)) :
    m = l.withLabels (l.labels.set k (some l.code.length)) := by
  cases h
  rfl

theorem emitJump_ok {op : Opcode} {i : Instr} (hop : i.bytes = [op.toByte, 0]) {k : Label}
    {u : Unit} (h : (emitJump op k).perform l = (.ok u, m)) : m = l.withJump i k := by
  obtain ⟨-, hjump⟩ | ⟨e, hfailed⟩ := Draft.emitJump_cases op k l.toDraft
  · rw [emitJump, perform_onDraft hjump] at h
    cases h
    rw [withJump, hop]
    rfl
  · rw [emitJump, perform_onDraft hfailed] at h
    cases h

/-- A label is made. -/
theorem leads_newLabel (except : Label → Prop) {k : Label} (h : newLabel.perform l = (.ok k, m)) :
    k < m.labels.length ∧ Leads except l m := by
  obtain ⟨rfl, rfl⟩ := newLabel_ok h
  refine ⟨?_, leads_of_fixups (appends_newLabel l) rfl⟩
  rw [withLabels, List.length_append]
  exact Nat.lt_succ_self _

/-- A label that there is is marked. -/
theorem leads_mark (except : Label → Prop) {k : Label} {u : Unit} (hk : k < l.labels.length)
    (h : (mark k).perform l = (.ok u, m)) : l.MarkedSince m k ∧ Leads except l m := by
  obtain rfl := mark_ok h
  exact ⟨markedSince_mark hk, leads_of_fixups (appends_mark l k) rfl⟩

theorem leads_jump {k : Label} {u : Unit} (hk : except k)
    (h : (emitJump .jump k).perform l = (.ok u, m)) : Leads except l m := by
  obtain rfl := emitJump_ok (i := .jump 0) rfl h
  exact leads_withJump (.inl rfl) hk

theorem leads_jumpIfFalse {k : Label} {u : Unit} (hk : except k)
    (h : (emitJump .jumpIfFalse k).perform l = (.ok u, m)) : Leads except l m := by
  obtain rfl := emitJump_ok (i := .jumpIfFalse 0) rfl h
  exact leads_withJump (.inr rfl) hk

/-- An action without jumps. -/
theorem leads_of_grows {α : Type} {a : Entry α} {xs ns : List String} {x : α}
    (hgrows : Entry.Grows false xs ns a) (h : a.perform l = (.ok x, m)) : Leads except l m := by
  obtain ⟨_, _, hsteps, -⟩ := hgrows l
  rw [h] at hsteps
  exact leads_of_fixups hsteps.appends hsteps.fixups_eq

/-- What is laid out inside of a loop leaves the label behind it open. -/
theorem leads_inLoop {frame : LoopFrame} {a : Entry Unit} {u : Unit}
    (hbody : ∀ {m}, a.perform (l.opened frame) = (.ok u, m) →
      Leads (l.opened frame).AtLoopEnd (l.opened frame) m)
    (h : (inLoop frame a).perform l = (.ok u, m)) : Leads (· = frame.finish) l m := by
  rw [perform_inLoop] at h
  obtain ⟨hok, rfl⟩ := Prod.mk.inj h
  have hinside := hbody (Prod.ext hok rfl)
  have happends := hinside.appends
  refine ⟨⟨?_, happends.code, happends.constants, happends.numbers, happends.registers,
    happends.labels, happends.addresses⟩, fun f hf => ?_⟩
  · rw [closed, happends.loops]
    rfl
  · exact (hinside.settled f hf).imp_left fun hend => (Option.some.inj hend).symm

/-- A condition with its block, and what follows them. -/
theorem leads_clause {cond : Expr} {finish next : Label} {l₁ l₂ l₃ : Ledger} {u v : Unit}
    (hnext : next < l.labels.length) (hcond : cond.enter.perform l = (.ok u, l₁))
    (hjump : (emitJump .jumpIfFalse next).perform l₁ = (.ok v, l₂))
    (hbody : Leads l₂.AtLoopEnd l₂ l₃)
    (hrest : next < l₃.labels.length →
      l₃.MarkedSince m next ∧ Leads (fun k => l₃.AtLoopEnd k ∨ k = finish) l₃ m) :
    Leads (fun k => l.AtLoopEnd k ∨ k = finish) l m := by
  have htest : Leads (fun k => (l.AtLoopEnd k ∨ k = finish) ∨ k = next) l l₂ :=
    (leads_of_grows cond.grows hcond).trans (leads_jumpIfFalse (.inr rfl) hjump)
  have hfront := htest.trans (hbody.mono fun k hk => .inl (.inl (htest.appends.atLoopEnd hk)))
  have happends := hfront.appends
  obtain ⟨hmarked, hback⟩ := hrest (Nat.lt_of_lt_of_le hnext happends.labels)
  have hall := hfront.trans (hback.mono fun k hk => .inl (hk.imp_left happends.atLoopEnd))
  refine hall.settle fun k hk => hk.imp_right ?_
  rintro rfl
  exact hmarked.earlier happends

/-- The end of a block of a conditional with something behind it: a jump behind the conditional, and
the label of the test in front of the block. -/
theorem leads_exit {finish next : Label} {l₁ : Ledger} {u v : Unit} (hnext : next < l.labels.length)
    (hjump : (emitJump .jump finish).perform l = (.ok u, l₁))
    (hmark : (mark next).perform l₁ = (.ok v, m)) :
    l.MarkedSince m next ∧ Leads (fun k => l.AtLoopEnd k ∨ k = finish) l m := by
  have hexit : Leads (fun k => l.AtLoopEnd k ∨ k = finish) l l₁ := leads_jump (.inr rfl) hjump
  obtain ⟨hmarked, hlast⟩ := leads_mark _ (Nat.lt_of_lt_of_le hnext hexit.appends.labels) hmark
  exact ⟨hmarked.earlier hexit.appends, hexit.trans hlast⟩

/-- A loop marks both of its labels: the one in front of its body at once, and the one behind it when
it has jumped back. -/
theorem leads_loop {body : Entry Unit} {u : Unit}
    (hbody : ∀ {l m : Ledger} {u : Unit}, body.perform l = (.ok u, m) → Leads l.AtLoopEnd l m)
    (h : (do
      let start ← newLabel
      let finish ← newLabel
      mark start
      inLoop ⟨start, finish⟩ body
      emitJump .jump start
      mark finish : Entry Unit).perform l = (.ok u, m)) : Leads l.AtLoopEnd l m := by
  obtain ⟨start, l₁, h₁, h⟩ := bind_ok h
  obtain ⟨finish, l₂, h₂, h⟩ := bind_ok h
  obtain ⟨_, l₃, h₃, h⟩ := bind_ok h
  obtain ⟨_, l₄, h₄, h⟩ := bind_ok h
  obtain ⟨_, l₅, h₅, h₆⟩ := bind_ok h
  obtain ⟨hstart, hlabel⟩ := leads_newLabel (fun k => k = start ∨ k = finish) h₁
  obtain ⟨hfinish, hlabel'⟩ := leads_newLabel (fun k => k = start ∨ k = finish) h₂
  obtain ⟨hbegun, hmark⟩ := leads_mark (fun k => k = start ∨ k = finish)
    (Nat.lt_of_lt_of_le hstart hlabel'.appends.labels) h₃
  have hround : Leads (fun k => k = start ∨ k = finish) l₃ l₄ :=
    (leads_inLoop hbody h₄).mono fun _ => .inr
  have hback : Leads (fun k => k = start ∨ k = finish) l₄ l₅ := leads_jump (.inl rfl) h₅
  have hinside := hround.trans hback
  obtain ⟨hended, hlast⟩ := leads_mark (fun k => k = start ∨ k = finish)
    (Nat.lt_of_lt_of_le hfinish (hmark.trans hinside).appends.labels) h₆
  have hlabels := hlabel.trans hlabel'
  have hfront := hlabels.trans (hmark.trans hinside)
  refine (hfront.trans hlast).settle fun k hk => .inr ?_
  rcases hk with rfl | rfl
  · have hsince := hbegun.trans hmark.appends (hinside.trans hlast).appends
    exact hsince.earlier hlabels.appends
  · exact hended.earlier hfront.appends

end Ledger

/-! ## Statements -/

open Ledger

mutual

/-- **A statement that is laid out has its labels marked**, but for the one behind the innermost
loop. -/
theorem Stmt.leads : ∀ (s : Stmt) {l l' : Ledger} {u : Unit}, s.enter.perform l = (.ok u, l') →
    Leads l.AtLoopEnd l l'
  | .exprStmt pos e, l, l', u, h => by
    rw [Stmt.enter] at h
    exact leads_of_grows e.grows h
  | .letDecl pos name value, l, l', u, h => leads_of_grows (grows_letDecl pos name value) h
  | .assign pos name value, l, l', u, h => leads_of_grows (grows_assign pos name value) h
  | .returning pos value, l, l', u, h => leads_of_grows (grows_returning pos value) h
  | .breaking pos, l, l', u, h => by
    rw [Stmt.enter, perform_get_bind] at h
    cases hend : l.loopEnd? with
    | none =>
      rw [hend] at h
      cases h
    | some k =>
      rw [hend] at h
      exact leads_jump hend h
  | .conditional pos cond body rest, l, l', u, h => by
    rw [Stmt.enter] at h
    obtain ⟨finish, l₁, h₁, h⟩ := bind_ok h
    obtain ⟨next, l₂, h₂, h⟩ := bind_ok h
    obtain ⟨_, l₃, h₃, h⟩ := bind_ok h
    obtain ⟨_, l₄, h₄, h⟩ := bind_ok h
    obtain ⟨_, l₅, h₅, h⟩ := bind_ok h
    obtain ⟨_, l₆, h₆, h₇⟩ := bind_ok h
    obtain ⟨hfinish, hlabel⟩ := leads_newLabel (fun k => l.AtLoopEnd k ∨ k = finish) h₁
    obtain ⟨hnext, hlabel'⟩ := leads_newLabel (fun k => l.AtLoopEnd k ∨ k = finish) h₂
    have hlabels := hlabel.trans hlabel'
    have hclause := leads_clause hnext h₃ h₄ (Stmt.leadsList body h₅) fun hnext' =>
      Chain.leads rest hnext' h₆
    have hfront := hlabels.trans
      (hclause.mono fun k hk => hk.imp_left hlabels.appends.atLoopEnd)
    obtain ⟨hmarked, hlast⟩ := leads_mark _ (Nat.lt_of_lt_of_le hfinish
      (hlabel'.appends.trans hclause.appends).labels) h₇
    refine (hfront.trans hlast).settle fun k hk => hk.imp_right ?_
    rintro rfl
    exact hmarked.earlier hfront.appends
  | .loop pos body, l, l', u, h => by
    rw [Stmt.enter] at h
    exact leads_loop (Stmt.leadsList body) h
  | .fnDecl pos name params body, l, l', u, h => by
    rw [Stmt.enter] at h
    cases h
  | .misplaced kind, l, l', u, h => by
    rw [Stmt.enter] at h
    cases h

theorem Stmt.leadsList : ∀ (ss : List Stmt) {l l' : Ledger} {u : Unit},
    (Stmt.enterList ss).perform l = (.ok u, l') → Leads l.AtLoopEnd l l'
  | [], l, l', u, h => by
    cases h
    exact leads_of_fixups (.refl l) rfl
  | s :: ss, l, l', u, h => by
    rw [Stmt.enterList] at h
    obtain ⟨_, l₁, h₁, h₂⟩ := bind_ok h
    have hfirst := Stmt.leads s h₁
    exact hfirst.trans ((Stmt.leadsList ss h₂).mono fun _ => hfirst.appends.atLoopEnd)

/-- What follows a block of a conditional leaves the label behind the conditional open, too, and
marks the one that it is given. -/
theorem Chain.leads : ∀ (rest : Chain) {finish next : Label} {l l' : Ledger} {u : Unit},
    next < l.labels.length → (rest.enter finish next).perform l = (.ok u, l') →
    l.MarkedSince l' next ∧ Leads (fun k => l.AtLoopEnd k ∨ k = finish) l l'
  | .done, finish, next, l, l', u, hnext, h => leads_mark _ hnext h
  | .otherwise body, finish, next, l, l', u, hnext, h => by
    rw [Chain.enter] at h
    obtain ⟨_, l₁, h₁, h⟩ := bind_ok h
    obtain ⟨_, l₂, h₂, h₃⟩ := bind_ok h
    obtain ⟨hmarked, hexit⟩ := leads_exit hnext h₁ h₂
    have hbody := Stmt.leadsList body h₃
    refine ⟨hmarked.trans hexit.appends hbody.appends, hexit.trans (hbody.mono fun k hk => ?_)⟩
    exact .inl (hexit.appends.atLoopEnd hk)
  | .elseIf cond body rest, finish, next, l, l', u, hnext, h => by
    rw [Chain.enter] at h
    obtain ⟨_, l₁, h₁, h⟩ := bind_ok h
    obtain ⟨_, l₂, h₂, h⟩ := bind_ok h
    obtain ⟨later, l₃, h₃, h⟩ := bind_ok h
    obtain ⟨_, l₄, h₄, h⟩ := bind_ok h
    obtain ⟨_, l₅, h₅, h⟩ := bind_ok h
    obtain ⟨_, l₆, h₆, h₇⟩ := bind_ok h
    obtain ⟨hmarked, hexit⟩ := leads_exit hnext h₁ h₂
    obtain ⟨hlater, hlabel⟩ := leads_newLabel (fun k => l.AtLoopEnd k ∨ k = finish) h₃
    have hfront := hexit.trans hlabel
    have hclause := leads_clause hlater h₄ h₅ (Stmt.leadsList body h₆) fun hlater' =>
      Chain.leads rest hlater' h₇
    refine ⟨hmarked.trans hexit.appends (hlabel.appends.trans hclause.appends), ?_⟩
    exact hfront.trans (hclause.mono fun k hk => hk.imp_left hfront.appends.atLoopEnd)

end

/-! ## The main statement -/

namespace Ledger

/-- **Laying a tree out only appends**, whatever the ledger holds.

* Whether the tree is laid out or fails at some depth, the open loops are the same afterwards,
  nothing that was there before is changed, and every new fixup waits at the operand of a new jump.
* If it is laid out, every label that a new fixup waits for is marked at an address that the code
  has reached since, except for the label behind the innermost loop that was open.
* The same goes for drafts, since laying a tree out on a draft is laying it out on its ledger. -/
theorem enter_appends (l : Ledger) :
    (∀ s : Stmt, l.Appends (s.enter.perform l).2 ∧
      ((s.enter.perform l).1 = .ok () → ∀ f ∈ (s.enter.perform l).2.fixups.drop l.fixups.length,
        l.loopEnd? = some f.target ∨ l.MarkedSince (s.enter.perform l).2 f.target)) ∧
    (∀ e : Expr, l.Appends (e.enter.perform l).2 ∧
      ((e.enter.perform l).1 = .ok () → ∀ f ∈ (e.enter.perform l).2.fixups.drop l.fixups.length,
        l.loopEnd? = some f.target ∨ l.MarkedSince (e.enter.perform l).2 f.target)) ∧
    (∀ (s : Stmt) (d : Draft), (Draft.statement s).perform d =
      ((s.enter.perform (ofDraft d)).1, (s.enter.perform (ofDraft d)).2.toDraft)) ∧
    ∀ (e : Expr) (d : Draft), e.emit.perform d =
      ((e.enter.perform (ofDraft d)).1, (e.enter.perform (ofDraft d)).2.toDraft) := by
  refine ⟨fun s => ⟨s.grows.appends l, fun h => ?_⟩, fun e => ⟨?_, fun h => ?_⟩,
    Draft.perform_statement_eq, Draft.perform_emit_eq⟩
  · exact (s.leads (Prod.ext h rfl)).settled
  · exact Entry.Grows.appends (b := false) e.grows l
  · have hleads : Leads l.AtLoopEnd l (e.enter.perform l).2 :=
      leads_of_grows e.grows (Prod.ext h rfl)
    exact hleads.settled

/-- A ledger inside of a loop. -/
def insideLoop : Ledger :=
  { code := [0xff], loops := [⟨0, 1⟩], labels := [some 0, none] }

/-- A conditional that leaves the loop around it, or goes into another one. -/
def leaving : Stmt :=
  .conditional ⟨1, 1⟩ (.literal ⟨1, 4⟩ (some (.bool true))) [.breaking ⟨1, 11⟩]
    (.otherwise [.loop ⟨2, 3⟩ [.letDecl ⟨3, 5⟩ "x" (.literal ⟨3, 13⟩ (some (.text "hi"))),
      .breaking ⟨4, 5⟩]])

/-- Two loops, one in the other, and a variable in there that is not bound. -/
def stranded : Stmt :=
  .loop ⟨1, 1⟩ [.letDecl ⟨2, 3⟩ "x" (.literal ⟨2, 11⟩ (some (.text "hi"))),
    .loop ⟨3, 3⟩ [.assign ⟨4, 5⟩ "y" (.identifier ⟨4, 9⟩ "x")]]

theorem enter_appends_insideLoop :
    (leaving.enter.perform insideLoop).1 = .ok () ∧
    (∀ f ∈ [(⟨4, 3⟩ : Fixup), ⟨6, 1⟩, ⟨8, 2⟩, ⟨14, 5⟩, ⟨16, 4⟩],
      insideLoop.loopEnd? = some f.target ∨
        insideLoop.MarkedSince (leaving.enter.perform insideLoop).2 f.target) ∧
    (stranded.enter.perform insideLoop).1 =
      .error ⟨.undefinedVariable "y", ⟨some 4, some 5⟩⟩ ∧
    insideLoop.Appends (stranded.enter.perform insideLoop).2 := by
  obtain ⟨hstatements, -⟩ := enter_appends insideLoop
  have hleaving : (leaving.enter.perform insideLoop).1 = .ok () := by decide +kernel
  have hfixups : (leaving.enter.perform insideLoop).2.fixups.drop insideLoop.fixups.length =
      [⟨4, 3⟩, ⟨6, 1⟩, ⟨8, 2⟩, ⟨14, 5⟩, ⟨16, 4⟩] := by decide +kernel
  have hsettled := (hstatements leaving).2 hleaving
  rw [hfixups] at hsettled
  exact ⟨hleaving, hsettled, by decide +kernel, (hstatements stranded).1⟩

end Ledger
end Octet
