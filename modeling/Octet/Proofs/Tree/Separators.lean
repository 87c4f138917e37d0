import Octet.Proofs.Tree.Prefixes

/-!
# Programs one after the other

A program ends where its tokens end.  If more tokens follow, it may go on instead: an operator
continues its last expression, a parenthesis makes a call of its last name, an `else` belongs to its
last conditional, and a value on its line to its last `return`.  No semicolon does any of this
(`Harmless.cons`), so a program is read in front of a semicolon as it is read in front of the end,
and what is read behind the semicolon does not depend on what stands in front of it.

More generally the tokens of two programs may be put one behind the other whenever those of the
second one begin with something `Harmless` (`Items.append`).
-/

namespace Octet
namespace Grammar

/-- Tokens that are read as items, in front of others that continue none of them. -/
theorem Items.append {room : Nat} {items others : List Stmt} {tokens more : List Token}
    (h : Items .greedy room items tokens) (hothers : Items .greedy room others more)
    (hmore : Harmless more) : Items .greedy room (items ++ others) (tokens ++ more) := by
  have hlater : ∀ later : List Token, Alike Harmless later (later ++ more) := by
    intro later
    cases later with
    | nil => exact .inr hmore
    | cons t later => exact alike_cons
  induction h with
  | done => exact hothers
  | skip hsep _ ih => exact .skip hsep ih
  | @statement s items tokens later hfront hs _ _ ih =>
    obtain ⟨t, front, rfl, hlocal⟩ := Statement.local room hs
    have hs' := hlocal (later ++ more) (hlater later)
    simp only [List.cons_append, List.append_assoc]
    exact .statement hfront hs' trivial ih
  | @function word f items tokens later hword hf _ _ ih =>
    obtain ⟨t, front, rfl, hlocal⟩ := Declaration.local room word.pos hf
    have hf' := hlocal (later ++ more) (.inr trivial)
    simp only [List.cons_append, List.append_assoc]
    exact .function hword hf' trivial ih

end Grammar

open Grammar

/-- **A semicolon separates programs.**  The tokens of two programs with a semicolon between them
are read as the items of the first one followed by those of the second one, with the positions that
they have by themselves. -/
theorem ofTokens_append_semicolon {ts us : List Token} {p q : Program} {sep : Token}
    (hts : ∀ t ∈ ts, t.kind ≠ .eof) (hus : ∀ t ∈ us, t.kind ≠ .eof)
    (hsep : sep.kind = .semicolon) (hp : Program.ofTokens ts = .ok p)
    (hq : Program.ofTokens us = .ok q) :
    Program.ofTokens (ts ++ [sep] ++ us) = .ok ⟨p.items ++ q.items⟩ := by
  rw [ofTokens_eq_ok_iff, takeWhile_of_ends hts, program_iff] at hp
  rw [ofTokens_eq_ok_iff, takeWhile_of_ends hus, program_iff] at hq
  have hends : ∀ t ∈ ts ++ [sep] ++ us, t.kind ≠ .eof := by
    simp only [List.mem_append, List.mem_singleton]
    rintro t ((ht | rfl) | ht)
    · exact hts t ht
    · rw [hsep]
      decide
    · exact hus t ht
  rw [ofTokens_eq_ok_iff, takeWhile_of_ends hends, program_iff, List.append_assoc,
    List.singleton_append]
  exact hp.append (.skip hsep hq) (.cons (.inr (.inr hsep)) us)

/-- The `return` of the line `return; 1`. -/
def returnToken : Token := ⟨.returnWord, "return", ⟨1, 1⟩, none⟩

/-- The semicolon of that line. -/
def semicolonToken : Token := ⟨.semicolon, ";", ⟨1, 7⟩, none⟩

/-- The number of that line. -/
def oneToken : Token := ⟨.number, "1", ⟨1, 9⟩, some (.int 1)⟩

/-- The number is no value of the `return` in front of the semicolon.  It would be one without the
semicolon. -/
theorem ofTokens_append_semicolon_return :
    (∃ p q : Program, p.items.length = 1 ∧ q.items.length = 1 ∧
      Program.ofTokens [returnToken] = .ok p ∧ Program.ofTokens [oneToken] = .ok q ∧
      Program.ofTokens ([returnToken] ++ [semicolonToken] ++ [oneToken]) =
        .ok ⟨p.items ++ q.items⟩) ∧
    (Program.ofTokens [returnToken, oneToken]).toOption.map (·.items.length) = some 1 := by
  have hreturn : (Program.ofTokens [returnToken]).toOption.map (·.items.length) = some 1 := by
    decide +kernel
  have hone : (Program.ofTokens [oneToken]).toOption.map (·.items.length) = some 1 := by
    decide +kernel
  refine ⟨?_, by decide +kernel⟩
  cases hp : Program.ofTokens [returnToken] with
  | error e =>
    rw [hp] at hreturn
    cases hreturn
  | ok p =>
    cases hq : Program.ofTokens [oneToken] with
    | error e =>
      rw [hq] at hone
      cases hone
    | ok q =>
      rw [hp] at hreturn
      rw [hq] at hone
      exact ⟨p, q, Option.some.inj hreturn, Option.some.inj hone, rfl, rfl,
        ofTokens_append_semicolon (by decide) (by decide) rfl hp hq⟩

end Octet
