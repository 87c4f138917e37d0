/-!
# Line ends

A source file may end its lines with a line feed, a carriage return or both.
`unifyNewlines` makes every line end a line feed, so that positions are counted
alike whatever wrote the file.

No carriage return is left (`not_mem_unifyNewlines`), and a text without carriage
returns is left alone (`unifyNewlines_of_not_mem`), so unifying twice is unifying
once.  Two pieces of a text are unified apart from each other
(`unifyNewlines_append`), unless the cut goes through a line end: then one line
end would become two.
-/

namespace Octet
namespace Text

/-- Every line end as a line feed: a carriage return becomes one, together with
the line feed that follows it, if one does. -/
def unifyNewlines : List Char → List Char
  | '\r' :: '\n' :: rest => '\n' :: unifyNewlines rest
  | '\r' :: rest => '\n' :: unifyNewlines rest
  | c :: rest => c :: unifyNewlines rest
  | [] => []

theorem unifyNewlines_both (rest : List Char) :
    unifyNewlines ('\r' :: '\n' :: rest) = '\n' :: unifyNewlines rest := by
  rw [unifyNewlines]

theorem unifyNewlines_alone {rest : List Char} (h : ¬ ['\n'] <+: rest) :
    unifyNewlines ('\r' :: rest) = '\n' :: unifyNewlines rest := by
  rw [unifyNewlines]
  rintro rest rfl
  exact h ⟨rest, rfl⟩

theorem unifyNewlines_cons_of_ne {c : Char} (h : c ≠ '\r') (rest : List Char) :
    unifyNewlines (c :: rest) = c :: unifyNewlines rest := by
  rw [unifyNewlines]
  · rintro _ rfl; exact absurd rfl h
  · exact h

/-- A text that is not cut inside a line end is unified piece by piece. -/
theorem unifyNewlines_append (text : List Char) {rest : List Char}
    (h : ['\r'] <:+ text → ¬ ['\n'] <+: rest) :
    unifyNewlines (text ++ rest) = unifyNewlines text ++ unifyNewlines rest := by
  induction text using unifyNewlines.induct with
  | case1 text ih =>
    have hcut : ['\r'] <:+ text → ¬ ['\n'] <+: rest := fun hlast =>
      h ((hlast.trans (List.suffix_cons ..)).trans (List.suffix_cons ..))
    simp only [List.cons_append, unifyNewlines_both, ih hcut]
  | case2 text halone ih =>
    have hfirst : ¬ ['\n'] <+: text := fun ⟨rest, hrest⟩ => halone rest hrest.symm
    have hfirst' : ¬ ['\n'] <+: text ++ rest := by
      cases text with
      | nil => exact h (List.suffix_refl _)
      | cons c text => simpa using hfirst
    have hcut : ['\r'] <:+ text → ¬ ['\n'] <+: rest := fun hlast =>
      h (hlast.trans (List.suffix_cons ..))
    rw [List.cons_append, unifyNewlines_alone hfirst, unifyNewlines_alone hfirst', ih hcut,
      List.cons_append]
  | case3 c text _ hc ih =>
    have hcut : ['\r'] <:+ text → ¬ ['\n'] <+: rest := fun hlast =>
      h (hlast.trans (List.suffix_cons ..))
    simp only [List.cons_append, unifyNewlines_cons_of_ne hc, ih hcut]
  | case4 => rfl

/-- No carriage return is left. -/
theorem not_mem_unifyNewlines (text : List Char) : '\r' ∉ unifyNewlines text := by
  induction text using unifyNewlines.induct with
  | case1 text ih =>
    rw [unifyNewlines_both]
    exact List.not_mem_cons_of_ne_of_not_mem (by decide) ih
  | case2 text halone ih =>
    rw [unifyNewlines_alone fun ⟨rest, hrest⟩ => halone rest hrest.symm]
    exact List.not_mem_cons_of_ne_of_not_mem (by decide) ih
  | case3 c text _ hc ih =>
    rw [unifyNewlines_cons_of_ne hc]
    exact List.not_mem_cons_of_ne_of_not_mem (Ne.symm hc) ih
  | case4 => exact List.not_mem_nil

/-- Without a carriage return there is nothing to unify. -/
theorem unifyNewlines_of_not_mem {text : List Char} (h : '\r' ∉ text) :
    unifyNewlines text = text := by
  induction text with
  | nil => rfl
  | cons c rest ih =>
    have hc : c ≠ '\r' := fun hc => h (by simp [hc])
    have hr : '\r' ∉ rest := fun hr => h (by simp [hr])
    rw [unifyNewlines_cons_of_ne hc, ih hr]

@[simp]
theorem unifyNewlines_unifyNewlines (text : List Char) :
    unifyNewlines (unifyNewlines text) = unifyNewlines text :=
  unifyNewlines_of_not_mem (not_mem_unifyNewlines text)

end Text
end Octet
