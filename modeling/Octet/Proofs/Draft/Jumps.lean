import Octet.Proofs.Draft.Demands

/-!
# Where the jumps of a draft lead

A jump waits for a label, and the label is marked later.  This file finds the addresses of all
labels that jumps wait for: they are the targets that `Stmt.targets` computes from the tree
(`Stmt.answers`).  So it is known beforehand what happens when the addresses are written
(`perform_resolve`), and with it what laying out a program comes to (`generate_cases`).

The addresses are said with a function that gives one to each label, and that agrees with the labels
that are marked at the end (`Agrees`).  A label that is marked is never marked again, so a function
that agrees with the labels of a later draft agrees with those of an earlier one.  Two labels are
not marked by the part that jumps to them: the one behind the loop around it, and the one behind the
conditional that a chain belongs to.  Their addresses are given.
-/

namespace Octet
namespace Draft

open Demand Emit

/-- The addresses that the bytes of a draft wait for, given one for each label. -/
def awaited (address : Label → Option Nat) (d : Draft) : List (Option Nat) :=
  d.fixups.map fun f => address f.target

/-- Marked labels have these addresses. -/
def Agrees (address : Label → Option Nat) (labels : List (Option Nat)) : Prop :=
  ∀ ⦃l a⦄, labels[l]? = some (some a) → address l = some a

section

variable {address : Label → Option Nat} {labels : List (Option Nat)}

theorem Agrees.left {others : List (Option Nat)} (h : Agrees address (labels ++ others)) :
    Agrees address labels := by
  intro l a hl
  have hlt : l < labels.length := (List.getElem?_eq_some_iff.1 hl).1
  exact h (by rw [List.getElem?_append_left hlt, hl])

/-- Marking a label keeps the addresses of the others. -/
theorem Agrees.unmark {k : Label} {a : Nat} (h : Agrees address (labels.set k (some a)))
    (hk : labels[k]? = some none) : Agrees address labels ∧ address k = some a := by
  have hlt : k < labels.length := (List.getElem?_eq_some_iff.1 hk).1
  refine ⟨fun l b hl => h ?_, h (List.getElem?_set_self hlt)⟩
  have hne : k ≠ l := by
    rintro rfl
    cases hk.symm.trans hl
  rw [List.getElem?_set_ne hne, hl]

end

/-! ## Postconditions -/

theorem Plain.awaited {n : Nat} {d d' : Draft} (h : Plain n d d') (address : Label → Option Nat) :
    d'.awaited address = d.awaited address := by
  rw [Draft.awaited, Draft.awaited, h.fixups]

/-- A jump was appended. -/
structure Jumped (l : Label) (d d' : Draft) : Prop where
  length : d'.code.length = d.code.length + 2
  labels : d'.labels = d.labels
  awaited : ∀ address, d'.awaited address = d.awaited address ++ [address l]

/-- A statement was laid out inside a loop, or in none.  It marked the labels that it made, and its
jumps have targets that are known once the place behind the loop is. -/
structure Advances (loopEnd : Option Label) (size : Nat) (targets : Option Nat → List Nat)
    (d d' : Draft) : Prop where
  length : d'.code.length = d.code.length + size
  labels : ∃ marks : List Nat, d'.labels = d.labels ++ marks.map some
  awaited : ∀ address finish, Agrees address d'.labels → loopEnd.map address = finish.map some →
    d'.awaited address = d.awaited address ++ (targets finish).map some

/-- A part of a conditional was laid out.  It marked a label that was there before, at this distance
from its beginning. -/
structure Continues (loopEnd : Option Label) (finish next : Label) (size entry : Nat)
    (targets : Option Nat → Nat → List Nat) (d d' : Draft) : Prop where
  length : d'.code.length = d.code.length + size
  labels : ∃ marks : List Nat,
    d'.labels = d.labels.set next (some (d.code.length + entry)) ++ marks.map some
  awaited : ∀ address loopFinish ifFinish, Agrees address d'.labels →
    loopEnd.map address = loopFinish.map some → address finish = some ifFinish →
    d'.awaited address = d.awaited address ++ (targets loopFinish ifFinish).map some

theorem Plain.advances {loopEnd : Option Label} {size : Nat} {targets : Option Nat → List Nat}
    {d d' : Draft} (h : Plain size d d') (htargets : ∀ finish, targets finish = []) :
    Advances loopEnd size targets d d' where
  length := h.length
  labels := ⟨[], by rw [h.labels, List.map_nil, List.append_nil]⟩
  awaited address finish _ _ := by
    rw [h.awaited, htargets, List.map_nil, List.append_nil]

/-- A statement leaves the labels alone that were there before. -/
theorem Advances.unmarked {loopEnd : Option Label} {size : Nat} {targets : Option Nat → List Nat}
    {d d' : Draft} {l : Label} (h : Advances loopEnd size targets d d')
    (hl : d.labels[l]? = some none) : d'.labels[l]? = some none := by
  obtain ⟨marks, hmarks⟩ := h.labels
  rw [hmarks, List.getElem?_append_left (List.getElem?_eq_some_iff.1 hl).1, hl]

theorem Advances.append {loopEnd : Option Label} {m n : Nat} {f g : Option Nat → List Nat}
    {d d₁ d₂ : Draft} (h : Advances loopEnd m f d d₁) (h' : Advances loopEnd n g d₁ d₂) :
    Advances loopEnd (m + n) (fun finish => f finish ++ g finish) d d₂ where
  length := by rw [h'.length, h.length, Nat.add_assoc]
  labels := by
    obtain ⟨marks, hmarks⟩ := h.labels
    obtain ⟨marks', hmarks'⟩ := h'.labels
    exact ⟨marks ++ marks', by rw [hmarks', hmarks, List.map_append, List.append_assoc]⟩
  awaited address finish hagrees hfinish := by
    have hfirst : Agrees address d₁.labels := by
      obtain ⟨marks, hmarks⟩ := h'.labels
      rw [hmarks] at hagrees
      exact hagrees.left
    rw [h'.awaited address finish hagrees hfinish, h.awaited address finish hfirst hfinish,
      List.map_append, List.append_assoc]

/-- A test with its block and what follows it. -/
theorem continues_clause {loopEnd : Option Label} {finish next : Label} {l m n entry : Nat}
    {block : Option Nat → List Nat} {rest : Option Nat → Nat → List Nat} {d d₁ d₂ d₃ d' : Draft}
    (hnext : d.labels[next]? = some none) (htest : Plain l d d₁) (hjump : Jumped next d₁ d₂)
    (hblock : Advances loopEnd m block d₂ d₃)
    (hrest : Continues loopEnd finish next n entry rest d₃ d') :
    Continues loopEnd finish next (l + 2 + m + n) (l + 2 + m + entry)
      (fun loopFinish ifFinish =>
        (d.code.length + l + 2 + m + entry) :: (block loopFinish ++ rest loopFinish ifFinish))
      d d' := by
  have hstart : d₃.code.length = d.code.length + l + 2 + m := by
    rw [hblock.length, hjump.length, htest.length]
  have hlt : next < d.labels.length := (List.getElem?_eq_some_iff.1 hnext).1
  obtain ⟨marks, hmarks⟩ := hblock.labels
  obtain ⟨marks', hmarks'⟩ := hrest.labels
  rw [hjump.labels, htest.labels] at hmarks
  refine ⟨by rw [hrest.length, hstart]; omega, ⟨marks ++ marks', ?_⟩, ?_⟩
  · rw [hmarks', hmarks, List.set_append_left _ _ hlt, hstart, List.map_append, List.append_assoc]
    simp only [Nat.add_assoc]
  · intro address loopFinish ifFinish hagrees hloop hif
    have hlater := hagrees
    rw [hmarks'] at hlater
    have hunmarked : d₃.labels[next]? = some none :=
      hblock.unmarked (by rw [hjump.labels, htest.labels, hnext])
    obtain ⟨hblockAgrees, haddress⟩ := hlater.left.unmark hunmarked
    rw [hrest.awaited address loopFinish ifFinish hagrees hloop hif,
      hblock.awaited address loopFinish hblockAgrees hloop, hjump.awaited, htest.awaited, haddress,
      hstart, List.map_cons, List.map_append]
    simp only [List.append_assoc, List.cons_append, List.nil_append]

/-! ## Actions -/

variable {earlier : List Demand} {d : Draft}

theorem answers_newLabel : Answers earlier d newLabel [] fun l d' =>
    l = d.labels.length ∧ d' = d.withLabels (d.labels ++ [none]) :=
  .quiet rfl rfl ⟨rfl, rfl⟩

/-- Two labels at a time. -/
theorem answers_twoLabels {β : Type} {f : Label → Label → Emit β} {demands : List Demand}
    {R : β → Draft → Prop}
    (h : Answers earlier (d.withLabels (d.labels ++ [none, none]))
      (f d.labels.length (d.labels.length + 1)) demands R) :
    Answers earlier d (do f (← newLabel) (← newLabel)) demands R := by
  have hfirst : newLabel.perform d = (.ok d.labels.length, d.withLabels (d.labels ++ [none])) := rfl
  refine .after hfirst rfl (.after rfl rfl ?_)
  rw [withLabels_labels, List.length_append, List.append_assoc]
  exact h

theorem answers_mark {l : Label} : Answers earlier d (mark l) [] fun _ d' =>
    d' = d.withLabels (d.labels.set l (some d.code.length)) :=
  .quiet rfl rfl rfl

theorem answers_emitJump {op : Opcode} {l : Label} (hop : op.width = 1) :
    Answers earlier d (emitJump op l) [] fun _ => Jumped l d := by
  rw [emitJump]
  refine .after (perform_emitByte (n := 0) hop (by decide) d) rfl (.quiet rfl rfl ⟨?_, rfl, ?_⟩)
  · rw [withCode_code, List.length_append]
    rfl
  · intro address
    rw [awaited, List.map_append]
    rfl

/-- A jump behind the innermost loop. -/
theorem Jumped.advances {l : Label} {d d' : Draft} (h : Jumped l d d') :
    Advances (some l) 2 (fun finish => finish.toList) d d' where
  length := h.length
  labels := ⟨[], by rw [h.labels, List.map_nil, List.append_nil]⟩
  awaited address finish _ hfinish := by
    rw [h.awaited]
    cases finish with
    | none => cases hfinish
    | some a =>
      rw [Option.some.inj hfinish]
      rfl

/-! ## Labels of a statement -/

/-- A conditional makes two labels, of which the second is marked by its clauses. -/
theorem advances_conditional {loopEnd : Option Label} {size entry : Nat}
    {targets : Option Nat → Nat → List Nat} {d d' : Draft}
    (h : Continues loopEnd d.labels.length (d.labels.length + 1) size entry targets
      (d.withLabels (d.labels ++ [none, none])) d') :
    Advances loopEnd size (fun finish => targets finish (d.code.length + size)) d
      (d'.withLabels (d'.labels.set d.labels.length (some d'.code.length))) := by
  obtain ⟨marks, hmarks⟩ := h.labels
  have hlabels : d'.labels =
      d.labels ++ none :: some (d.code.length + entry) :: marks.map some := by
    rw [hmarks, withLabels_labels, withLabels_code,
      List.set_append_right _ _ (Nat.le_add_right _ 1), Nat.add_sub_cancel_left, List.append_assoc]
    rfl
  have hunmarked : d'.labels[d.labels.length]? = some none := by
    rw [hlabels, List.getElem?_append_right (Nat.le_refl _), Nat.sub_self]
    rfl
  refine ⟨h.length, ⟨d'.code.length :: (d.code.length + entry) :: marks, ?_⟩, ?_⟩
  · rw [withLabels_labels, hlabels, List.set_append_right _ _ (Nat.le_refl _), Nat.sub_self]
    rfl
  · intro address finish hagrees hfinish
    obtain ⟨hbefore, haddress⟩ := hagrees.unmark hunmarked
    rw [h.length] at haddress
    exact h.awaited address finish _ hbefore hfinish haddress

/-- A loop makes two labels, marks the first at its beginning and the second behind its end. -/
theorem advances_loop {loopEnd : Option Label} {size : Nat} {targets : Option Nat → List Nat}
    {d d₁ d₂ : Draft}
    (hbody : Advances (some (d.labels.length + 1)) size targets
      (d.withLabels (d.labels ++ [some d.code.length, none])) d₁)
    (hjump : Jumped d.labels.length d₁ d₂) :
    Advances loopEnd (size + 2)
      (fun _ => targets (some (d.code.length + size + 2)) ++ [d.code.length]) d
      (d₂.withLabels (d₂.labels.set (d.labels.length + 1) (some d₂.code.length))) := by
  obtain ⟨marks, hmarks⟩ := hbody.labels
  have hend : d₂.code.length = d.code.length + size + 2 := by
    rw [hjump.length, hbody.length, withLabels_code]
  have hlabels : d₂.labels =
      d.labels ++ some d.code.length :: none :: marks.map some := by
    rw [hjump.labels, hmarks, withLabels_labels, List.append_assoc]
    rfl
  have hunmarked : d₂.labels[d.labels.length + 1]? = some none := by
    rw [hlabels, List.getElem?_append_right (Nat.le_add_right _ 1), Nat.add_sub_cancel_left]
    rfl
  refine ⟨by rw [withLabels_code, hend]; omega, ⟨d.code.length :: d₂.code.length :: marks, ?_⟩, ?_⟩
  · rw [withLabels_labels, hlabels, List.set_append_right _ _ (Nat.le_add_right _ 1),
      Nat.add_sub_cancel_left]
    rfl
  · intro address finish hagrees _
    obtain ⟨hbefore, hfinish⟩ := hagrees.unmark hunmarked
    have hstart : address d.labels.length = some d.code.length := by
      refine hbefore ?_
      rw [hlabels, List.getElem?_append_right (Nat.le_refl _), Nat.sub_self]
      rfl
    rw [hend] at hfinish
    rw [hjump.labels] at hbefore
    have hinner := hbody.awaited address (some (d.code.length + size + 2)) hbefore
      (by rw [Option.map_some, hfinish, Option.map_some])
    show d₂.awaited address = _
    rw [hjump.awaited, hinner, hstart, List.map_append, List.append_assoc]
    rfl

/-- Nothing follows, so a failed test goes on right here. -/
theorem continues_done {loopEnd : Option Label} {finish next : Label} {d : Draft} :
    Continues loopEnd finish next 0 0 (fun _ _ => []) d
      (d.withLabels (d.labels.set next (some d.code.length))) where
  length := rfl
  labels := ⟨[], by rw [List.map_nil, List.append_nil]; rfl⟩
  awaited _ _ _ _ _ _ := by
    rw [List.map_nil, List.append_nil]
    rfl

/-- A block that follows stands behind a jump to the end of the conditional. -/
theorem continues_otherwise {loopEnd : Option Label} {finish next : Label} {size : Nat}
    {targets : Option Nat → List Nat} {d d₁ d' : Draft} (hexit : Jumped finish d d₁)
    (hblock : Advances loopEnd size targets
      (d₁.withLabels (d₁.labels.set next (some d₁.code.length))) d') :
    Continues loopEnd finish next (2 + size) 2
      (fun loopFinish ifFinish => ifFinish :: targets loopFinish) d d' where
  length := by rw [hblock.length, withLabels_code, hexit.length, Nat.add_assoc]
  labels := by
    obtain ⟨marks, hmarks⟩ := hblock.labels
    exact ⟨marks, by rw [hmarks, withLabels_labels, hexit.labels, hexit.length]⟩
  awaited address loopFinish ifFinish hagrees hloop hif := by
    have hexitAwaited : (d₁.withLabels (d₁.labels.set next (some d₁.code.length))).awaited address =
        d.awaited address ++ [some ifFinish] := by
      rw [← hif]
      exact hexit.awaited address
    rw [hblock.awaited address loopFinish hagrees hloop, hexitAwaited, List.append_assoc]
    rfl

/-- A clause that follows stands behind such a jump, and makes the label at which its own failed
test goes on. -/
theorem continues_elseIf {loopEnd : Option Label} {finish next : Label} {size entry : Nat}
    {targets : Option Nat → Nat → List Nat} {d d₁ d' : Draft} (hexit : Jumped finish d d₁)
    (hclause : Continues loopEnd finish d.labels.length size entry targets
      (d₁.withLabels (d₁.labels.set next (some d₁.code.length) ++ [none])) d') :
    Continues loopEnd finish next (2 + size) 2
      (fun loopFinish ifFinish => ifFinish :: targets loopFinish ifFinish) d d' where
  length := by rw [hclause.length, withLabels_code, hexit.length, Nat.add_assoc]
  labels := by
    obtain ⟨marks, hmarks⟩ := hclause.labels
    refine ⟨(d₁.code.length + entry) :: marks, ?_⟩
    rw [hmarks, withLabels_labels, withLabels_code, hexit.labels, ← hexit.length]
    rw [List.set_append_right _ _ (Nat.le_of_eq List.length_set), List.length_set, Nat.sub_self,
      List.append_assoc]
    rfl
  awaited address loopFinish ifFinish hagrees hloop hif := by
    have hexitAwaited :
        (d₁.withLabels (d₁.labels.set next (some d₁.code.length) ++ [none])).awaited address =
          d.awaited address ++ [some ifFinish] := by
      rw [← hif]
      exact hexit.awaited address
    rw [hclause.awaited address loopFinish ifFinish hagrees hloop hif, hexitAwaited,
      List.append_assoc]
    rfl

/-! ## Statements -/

mutual

/-- Laying out a statement. -/
theorem Stmt.answers : ∀ (s : Stmt) {loopEnd : Option Label} {earlier : List Demand} {d : Draft},
    Answers earlier d (s.emit loopEnd) (s.demands loopEnd.isSome)
      fun _ => Advances loopEnd s.size (fun finish => s.targets finish d.code.length) d
  | .exprStmt pos e, loopEnd, _, _ => by
    rw [Stmt.emit, Stmt.demands, Stmt.size]
    exact (Expr.answers e).mono fun _ _ he => he.advances fun _ => rfl
  | .letDecl pos name value, loopEnd, _, _ => by
    rw [Stmt.emit, Stmt.demands, Stmt.size]
    refine (Expr.answers value).bind fun _ _ hvalue => ?_
    refine (answers_numbered rfl answers_allocate).mono fun _ _ hstore => ?_
    exact (hvalue.trans hstore).advances fun _ => rfl
  | .assign pos name value, loopEnd, _, _ => by
    rw [Stmt.emit, Stmt.demands, Stmt.size]
    refine answers_lookup.bind fun _ _ ⟨hregister, hplain⟩ => ?_
    refine (Expr.answers value).before fun _ _ hvalue => ?_
    refine (answers_emitByte rfl hregister).mono fun _ _ hstore => ?_
    have hall := (hplain.trans hvalue).trans hstore
    rw [Nat.zero_add] at hall
    exact hall.advances fun _ => rfl
  | .returning pos none, loopEnd, _, _ => by
    rw [Stmt.emit, Stmt.demands, Stmt.size]
    exact (answers_emit rfl).mono fun _ _ hret => hret.advances fun _ => rfl
  | .returning pos (some value), loopEnd, _, _ => by
    rw [Stmt.emit, Stmt.demands, Stmt.size]
    refine (Expr.answers value).before fun _ _ hvalue => ?_
    exact (answers_emit rfl).mono fun _ _ hret => (hvalue.trans hret).advances fun _ => rfl
  | .breaking pos, none, _, _ => by
    rw [Stmt.emit, Stmt.demands]
    exact .refuse nofun rfl trivial
  | .breaking pos, some l, _, _ => by
    rw [Stmt.emit, Stmt.demands, Stmt.size]
    exact .grant rfl rfl rfl ((answers_emitJump rfl).mono fun _ _ hjump => hjump.advances)
  | .conditional pos cond body rest, loopEnd, _, d => by
    rw [Stmt.emit, Stmt.demands, Stmt.size]
    refine answers_twoLabels ?_
    have hunmarked : (d.labels ++ [none, none])[d.labels.length + 1]? = some none := by
      rw [List.getElem?_append_right (Nat.le_add_right _ 1), Nat.add_sub_cancel_left]
      rfl
    refine (Expr.answers cond).bind fun _ _ htest => ?_
    refine (answers_emitJump rfl).bind fun _ _ hjump => ?_
    refine (Stmt.answersList body).bind fun _ _ hblock => ?_
    have hlater := hblock.unmarked (by rw [hjump.labels, htest.labels]; exact hunmarked)
    refine (Chain.answers rest hlater).before fun _ _ hrest => ?_
    refine answers_mark.mono fun _ _ hend => ?_
    rw [hblock.length] at hrest
    rw [hjump.length, htest.length] at hblock hrest
    have hall := advances_conditional (continues_clause hunmarked htest hjump hblock hrest)
    simp only [← Nat.add_assoc] at hall
    rw [hend]
    exact hall
  | .loop pos body, loopEnd, _, d => by
    rw [Stmt.emit, Stmt.demands, Stmt.size]
    refine answers_twoLabels (answers_mark.bind fun _ _ hstart => ?_)
    refine (Stmt.answersList body).before fun _ _ hbody => ?_
    refine (answers_emitJump rfl).bind fun _ _ hjump => ?_
    refine answers_mark.mono fun _ _ hend => ?_
    rw [withLabels_labels, List.set_append_right _ _ (Nat.le_refl _), Nat.sub_self] at hstart
    rw [hstart] at hbody
    rw [hend]
    exact advances_loop hbody hjump
  | .fnDecl pos name params body, loopEnd, _, _ => by
    rw [Stmt.emit, Stmt.demands]
    exact .refuse id rfl trivial
  | .misplaced kind, loopEnd, _, _ => by
    rw [Stmt.emit, Stmt.demands]
    exact .refuse id rfl trivial

theorem Stmt.answersList : ∀ (ss : List Stmt) {loopEnd : Option Label} {earlier : List Demand}
    {d : Draft}, Answers earlier d (Stmt.emitList loopEnd ss) (Stmt.demandsList loopEnd.isSome ss)
      fun _ => Advances loopEnd (Stmt.sizeList ss)
        (fun finish => Stmt.targetsList finish d.code.length ss) d
  | [], _, _, _ => .quiet rfl rfl ((Plain.refl _).advances fun _ => rfl)
  | s :: ss, loopEnd, _, d => by
    rw [Stmt.emitList, Stmt.demandsList, Stmt.sizeList]
    refine (Stmt.answers s).bind fun _ _ hs => (Stmt.answersList ss).mono fun _ _ hss => ?_
    rw [hs.length] at hss
    exact hs.append hss

/-- Laying out what follows a block of a conditional. -/
theorem Chain.answers : ∀ (rest : Chain) {loopEnd : Option Label} {finish next : Label}
    {earlier : List Demand} {d : Draft}, d.labels[next]? = some none →
      Answers earlier d (rest.emit loopEnd finish next) (rest.demands loopEnd.isSome)
        fun _ => Continues loopEnd finish next rest.size rest.entry
          (fun loopFinish ifFinish => rest.targets loopFinish ifFinish d.code.length) d
  | .done, _, _, _, _, _, hnext => by
    rw [Chain.emit, Chain.demands, Chain.size]
    exact answers_mark.mono fun _ _ hend => hend ▸ continues_done
  | .otherwise body, _, _, _, _, _, hnext => by
    rw [Chain.emit, Chain.demands, Chain.size]
    refine (answers_emitJump rfl).bind fun _ _ hexit => answers_mark.bind fun _ _ hmark => ?_
    refine (Stmt.answersList body).mono fun _ _ hblock => ?_
    subst hmark
    have hall := continues_otherwise hexit hblock
    rw [withLabels_code, hexit.length] at hall
    exact hall
  | .elseIf cond body rest, loopEnd, finish, next, _, d, hnext => by
    rw [Chain.emit, Chain.demands, Chain.size]
    refine (answers_emitJump rfl).bind fun _ d₁ hexit => answers_mark.bind fun _ _ hmark => ?_
    refine answers_newLabel.bind fun later d₃ ⟨hlater, hd₃⟩ => ?_
    subst hmark
    rw [withLabels_labels, List.length_set, hexit.labels] at hlater
    subst hlater
    have hunmarked : d₃.labels[d.labels.length]? = some none := by
      rw [hd₃, withLabels_labels, withLabels_labels, hexit.labels,
        List.getElem?_append_right (Nat.le_of_eq List.length_set), List.length_set, Nat.sub_self]
      rfl
    refine (Expr.answers cond).bind fun _ _ htest => ?_
    refine (answers_emitJump rfl).bind fun _ _ hjump => ?_
    refine (Stmt.answersList body).bind fun _ _ hblock => ?_
    have hlater := hblock.unmarked (by rw [hjump.labels, htest.labels]; exact hunmarked)
    refine (Chain.answers rest hlater).mono fun _ _ hrest => ?_
    rw [hblock.length] at hrest
    rw [hjump.length, htest.length] at hblock hrest
    have hclause := continues_clause hunmarked htest hjump hblock hrest
    subst hd₃
    have hall := continues_elseIf hexit hclause
    simp only [withLabels_code, hexit.length] at hall
    exact hall

end

/-! ## Addresses -/

/-- Writing addresses that are known changes bytes and nothing else, up to the first address that is
no byte. -/
theorem perform_patches : ∀ {fixups : List Fixup} {targets : List Nat} {d : Draft},
    fixups.map (fun f => d.address? f.target) = targets.map some →
    ((∀ a ∈ targets, a < 256) ∧
      ∃ code, (fixups.forM patch).perform d = (.ok (), d.withCode code)) ∨
    ∃ a d', a ∈ targets ∧ 256 ≤ a ∧
      (fixups.forM patch).perform d = (.error ⟨.targetTooFar a, .unknown⟩, d')
  | [], targets, d, h => by
    obtain rfl := List.map_eq_nil_iff.1 h.symm
    exact .inl ⟨nofun, d.code, rfl⟩
  | f :: fixups, [], d, h => by cases h
  | f :: fixups, a :: targets, d, h => by
    obtain ⟨hfirst, hrest⟩ := List.cons.inj h
    have haddress : d.address? f.target = some a := hfirst
    have hsteps : (f :: fixups).forM patch = (do patch f; fixups.forM patch) := rfl
    have hpatch : (patch f).perform d =
        if a < 256 then (.ok (), d.withCode (d.code.set f.offset (UInt8.ofNat a)))
        else (.error ⟨.targetTooFar a, .unknown⟩, d) := by
      rw [patch, perform_get_bind, haddress]
      dsimp only
      split
      · rfl
      · rfl
    rw [hsteps, perform_bind, hpatch]
    by_cases ha : a < 256
    · rw [if_pos ha]
      obtain ⟨hlt, code, hcode⟩ | ⟨b, d', hb, hge, herror⟩ :=
        perform_patches (d := d.withCode (d.code.set f.offset (UInt8.ofNat a))) hrest
      · exact .inl ⟨List.forall_mem_cons.2 ⟨ha, hlt⟩, code, hcode⟩
      · exact .inr ⟨b, d', List.mem_cons_of_mem _ hb, hge, herror⟩
    · rw [if_neg ha]
      exact .inr ⟨a, d, List.mem_cons_self .., Nat.le_of_not_lt ha, rfl⟩

/-- What laying out a program comes to: an image and tables with the names and the texts of the
program, or a fault of the first thing that is wrong with the program. -/
inductive ComesTo (p : Program) : Except CompileError Image × Draft → Prop
  | image {image : Image} {d : Draft} : AllMet p.demands → Stmt.sizeList p.items ≤ maxCodeSize →
      (∀ a ∈ p.targets, a < 256) → d.tables = Demand.tables p.demands →
      image.constants = d.constants → ComesTo p (.ok image, d)
  | demand {demand : Demand} {site : Site} {d : Draft} : FirstUnmet p.demands demand →
      demand.fault.Warranted → ComesTo p (.error ⟨demand.fault, site⟩, d)
  | size {site : Site} {d : Draft} : AllMet p.demands → maxCodeSize < Stmt.sizeList p.items →
      ComesTo p (.error ⟨.codeTooLong (Stmt.sizeList p.items), site⟩, d)
  | target {a : Nat} {site : Site} {d : Draft} : AllMet p.demands →
      Stmt.sizeList p.items ≤ maxCodeSize → a ∈ p.targets → 256 ≤ a →
      ComesTo p (.error ⟨.targetTooFar a, site⟩, d)

/-- **Laying out a program succeeds if nothing is wrong with it, and otherwise fails for the first
thing that is**, from whatever draft one starts. -/
theorem comesTo_generate (p : Program) (d : Draft) : ComesTo p ((generate p).perform d) := by
  have hanswers : Answers [] { labels := d.labels } (Stmt.emitList none p.items) p.demands
      fun _ => Advances none (Stmt.sizeList p.items)
        (fun finish => Stmt.targetsList finish 0 p.items) { labels := d.labels } :=
    Stmt.answersList p.items
  have hitems := hanswers allMet_nil rfl
  have hreset : reset.perform d = (.ok (), { labels := d.labels }) := rfl
  rw [generate, perform_bind, hreset]
  dsimp only
  rw [perform_bind]
  generalize (Stmt.emitList none p.items).perform _ = reached at hitems ⊢
  cases hitems with
  | unmet hunmet hfault => exact .demand hunmet hfault
  | @met _ d₁ hall htables hadvances =>
    have hlength : d₁.code.length = Stmt.sizeList p.items := by
      rw [hadvances.length]
      exact Nat.zero_add _
    have hawaited : d₁.fixups.map (fun f => d₁.address? f.target) = p.targets.map some := by
      have hagrees : Agrees d₁.address? d₁.labels := fun l a hl => by
        rw [address?, List.getD_eq_getElem?_getD, hl, Option.getD_some]
      exact hadvances.awaited d₁.address? none hagrees rfl
    dsimp only
    rw [resolve, perform_bind, perform_get_bind, hlength]
    by_cases hlong : maxCodeSize < Stmt.sizeList p.items
    · rw [if_pos hlong]
      exact .size hall hlong
    · rw [if_neg hlong]
      have hsize := Nat.le_of_not_lt hlong
      obtain ⟨htargets, code, hcode⟩ | ⟨a, d', ha, hge, herror⟩ := perform_patches hawaited
      · rw [hcode]
        exact .image hall hsize htargets htables rfl
      · rw [herror]
        exact .target hall hsize ha hge

/-- **A program that is not laid out is at fault itself.**  It never happens that an operand has
the wrong length or is no byte or no word, nor that a jump has no target, from whatever draft one
starts. -/
theorem warranted_of_generate {p : Program} {d d' : Draft} {e : CompileError}
    (h : (generate p).perform d = (.error e, d')) : e.fault.Warranted := by
  have hcomes := comesTo_generate p d
  rw [h] at hcomes
  cases hcomes with
  | demand _ hfault => exact hfault
  | size _ hlong => exact hlong
  | target _ _ _ hge => exact if_neg (Nat.not_lt.2 hge)

end Draft
end Octet
