import Octet.Proofs.Token.Scanning

/-!
# Gaps between tokens

A gap is made of blanks, of line comments and of block comments.  Where a line comment ends
depends on the text behind it: it runs up to a line feed or to the end of the program, and a line
feed behind the gap ends it as well as one inside.  So `Gap gap rest` speaks of a gap together with
the text that follows it.

A gap whose line comments are all closed by a line feed of their own needs no such text: a `Closed`
gap is a gap in front of anything (`Closed.gap_append`).

## Block comments

A block comment ends at the first `*/` behind its opening.  With `inside` as its text that is to
say that no `*/` occurs in `inside ++ ['*']`: neither inside nor across the end of it, where the
last star of `inside` must not meet a slash of its own.  Stars in front of the closing are
harmless, and the star of the opening is not one of them, so `/*/` is not a comment.
-/

namespace Octet
namespace Scan

/-! ## Gaps -/

/-- The text of a block comment whose closing comes right behind it. -/
def Unclosed (inside : List Char) : Prop :=
  ¬ ['*', '/'] <:+: inside ++ ['*']

/-- A gap between tokens, with the text behind it. -/
inductive Gap : List Char → List Char → Prop
  | nil {rest : List Char} : Gap [] rest
  | blank {c : Char} {gap rest : List Char} :
      isBlank c → Gap gap rest → Gap (c :: gap) rest
  | line {inside gap rest : List Char} :
      '\n' ∉ inside → (∀ c ∈ (gap ++ rest).head?, c = '\n') → Gap gap rest →
      Gap ('/' :: '/' :: (inside ++ gap)) rest
  | block {inside gap rest : List Char} :
      Unclosed inside → Gap gap rest →
      Gap ('/' :: '*' :: (inside ++ '*' :: '/' :: gap)) rest

/-- A gap whose line comments are closed. -/
inductive Closed : List Char → Prop
  | nil : Closed []
  | blank {c : Char} {gap : List Char} : isBlank c → Closed gap → Closed (c :: gap)
  | line {inside gap : List Char} :
      '\n' ∉ inside → Closed gap → Closed ('/' :: '/' :: (inside ++ '\n' :: gap))
  | block {inside gap : List Char} :
      Unclosed inside → Closed gap → Closed ('/' :: '*' :: (inside ++ '*' :: '/' :: gap))

/-- A closed gap goes on with any other gap. -/
theorem Closed.gap_append {gap gap' rest : List Char} (h : Closed gap) (h' : Gap gap' rest) :
    Gap (gap ++ gap') rest := by
  induction h with
  | nil => exact h'
  | blank hc _ ih => exact .blank hc ih
  | @line inside gap hinside _ ih =>
    rw [List.cons_append, List.cons_append, List.append_assoc]
    exact .line hinside (by simp) (.blank rfl ih)
  | @block inside gap hinside _ ih =>
    rw [List.cons_append, List.cons_append, List.append_assoc]
    exact .block hinside ih

theorem Closed.gap {gap : List Char} (h : Closed gap) (rest : List Char) : Gap gap rest := by
  have happend := h.gap_append (Gap.nil : Gap [] rest)
  rwa [List.append_nil] at happend

/-! ## Block comments -/

theorem unclosed_nil : Unclosed [] := by
  simp [Unclosed, List.infix_cons_iff]

/-- One more character in front closes nothing, unless it is a star before a slash. -/
theorem unclosed_cons {c : Char} {inside : List Char} :
    Unclosed (c :: inside) ↔ ¬ (c = '*' ∧ inside.head? = some '/') ∧ Unclosed inside := by
  have hhead : ['*', '/'] <+: c :: (inside ++ ['*']) ↔ c = '*' ∧ inside.head? = some '/' := by
    cases inside with
    | nil => simp [List.cons_prefix_cons]
    | cons d inside => simp [List.cons_prefix_cons, eq_comm]
  rw [Unclosed, Unclosed, List.cons_append, List.infix_cons_iff, hhead, not_or]

/-- The scanner closes a comment at the first `*/`. -/
theorem splitComment_of_unclosed {inside : List Char} (h : Unclosed inside) (rest : List Char) :
    splitComment (inside ++ '*' :: '/' :: rest) = some (inside ++ ['*', '/'], rest) := by
  induction inside with
  | nil => rfl
  | cons c inside ih =>
    obtain ⟨hc, hinside⟩ := unclosed_cons.mp h
    have hopen : ∀ tail, c = '*' → inside ++ '*' :: '/' :: rest = '/' :: tail → False := by
      intro tail hstar heq
      refine hc ⟨hstar, ?_⟩
      cases inside with
      | nil => simp at heq
      | cons d inside => simpa using (List.cons.inj heq).1
    rw [List.cons_append, splitComment.eq_2 _ _ hopen, ih hinside]
    rfl

theorem unclosed_of_splitComment {text inside rest : List Char}
    (h : splitComment text = some (inside, rest)) :
    ∃ front, inside = front ++ ['*', '/'] ∧ Unclosed front := by
  fun_induction splitComment text generalizing inside rest with
  | case1 tail =>
    cases h
    exact ⟨[], rfl, unclosed_nil⟩
  | case2 c tail hopen ih =>
    obtain ⟨⟨inside', rest'⟩, hsplit, heq⟩ := Option.map_eq_some_iff.mp h
    cases heq
    obtain ⟨front, rfl, hfront⟩ := ih hsplit
    refine ⟨c :: front, rfl, unclosed_cons.mpr ⟨?_, hfront⟩⟩
    rintro ⟨hstar, hslash⟩
    obtain ⟨front', rfl⟩ := List.head?_eq_some_iff.mp hslash
    exact hopen _ hstar (append_splitComment hsplit).symm
  | case3 => cases h

/-! ## The scanner's gaps -/

/-- What the scanner takes for a gap is one. -/
theorem gap_splitGap (text : List Char) : Gap (splitGap text).1 (splitGap text).2 := by
  fun_induction splitGap text with
  | case1 rest cut ih =>
    refine .line (fun hmem => ?_) ?_ ih
    · simpa using List.mem_takeWhile_imp hmem
    · intro c hc
      rw [append_splitGap] at hc
      have hhead := List.head?_dropWhile_not (· != '\n') rest
      rw [hc] at hhead
      simpa using hhead
  | case2 rest inside rest' hsplit _ cut ih =>
    obtain ⟨front, rfl, hfront⟩ := unclosed_of_splitComment hsplit
    rw [List.append_assoc]
    exact .block hfront ih
  | case3 => exact .nil
  | case4 c rest _ _ hc cut ih => exact .blank hc ih
  | case5 => exact .nil
  | case6 => exact .nil

theorem splitGap_nil : splitGap [] = ([], []) := by
  rw [splitGap]

theorem splitGap_blank {c : Char} (hc : isBlank c) (text : List Char) :
    splitGap (c :: text) = (c :: (splitGap text).1, (splitGap text).2) := by
  have hslash : c ≠ '/' := by rintro rfl; exact absurd hc (by decide)
  rw [splitGap.eq_3 _ _ (fun _ h => absurd h hslash) (fun _ h => absurd h hslash), if_pos hc]

theorem splitGap_line {inside text : List Char} (hinside : '\n' ∉ inside)
    (htext : ∀ c ∈ text.head?, c = '\n') :
    splitGap ('/' :: '/' :: (inside ++ text)) =
      ('/' :: '/' :: (inside ++ (splitGap text).1), (splitGap text).2) := by
  have hend : ∀ c ∈ text.head?, (c != '\n') = false := by
    intro c hc
    simp [htext c hc]
  rw [splitGap, takeWhile_of_boundary (bne_of_notMem hinside) hend,
    dropWhile_of_boundary (bne_of_notMem hinside) hend]

theorem splitGap_block {inside : List Char} (hinside : Unclosed inside) (text : List Char) :
    splitGap ('/' :: '*' :: (inside ++ '*' :: '/' :: text)) =
      ('/' :: '*' :: (inside ++ '*' :: '/' :: (splitGap text).1), (splitGap text).2) := by
  have hsplit := splitComment_of_unclosed hinside text
  rw [splitGap]
  split
  · rename_i inside' rest hsplit'
    obtain ⟨rfl, rfl⟩ := Prod.mk.inj (Option.some.inj (hsplit.symm.trans hsplit'))
    simp
  · rename_i hnone
    rw [hsplit] at hnone
    cases hnone

/-- Where neither a blank nor a comment begins, there is no gap. -/
theorem splitGap_of_lexeme {c : Char} {text : List Char} (hc : isBlank c = false)
    (hslash : c = '/' → ∀ d ∈ text.head?, d ≠ '/' ∧ d ≠ '*') :
    splitGap (c :: text) = ([], c :: text) := by
  have hline : ∀ tail, c = '/' → text = '/' :: tail → False := by
    rintro tail h rfl
    exact (hslash h '/' rfl).1 rfl
  have hblock : ∀ tail, c = '/' → text = '*' :: tail → False := by
    rintro tail h rfl
    exact (hslash h '*' rfl).2 rfl
  rw [splitGap.eq_3 _ _ hline hblock, hc]
  rfl

/-- A gap is cut off whole, with what the text behind it begins with. -/
theorem splitGap_append {gap rest : List Char} (h : Gap gap rest) :
    splitGap (gap ++ rest) = (gap ++ (splitGap rest).1, (splitGap rest).2) := by
  induction h with
  | nil => rfl
  | blank hc _ ih => rw [List.cons_append, splitGap_blank hc, ih, List.cons_append]
  | @line inside gap rest hinside hend _ ih =>
    rw [List.cons_append, List.cons_append, List.append_assoc, splitGap_line hinside hend, ih]
    simp
  | @block inside gap rest hinside _ ih =>
    rw [List.cons_append, List.cons_append, List.append_assoc, List.cons_append,
      List.cons_append, splitGap_block hinside, ih]
    simp

/-- **Gaps are read back.**  A gap in front of a text without one is cut off exactly. -/
theorem splitGap_of_gap {gap rest : List Char} (h : Gap gap rest)
    (hrest : splitGap rest = ([], rest)) : splitGap (gap ++ rest) = (gap, rest) := by
  rw [splitGap_append h, hrest, List.append_nil]

/-- No gap is in front of a text. -/
def NoGap (text : List Char) : Prop :=
  ∀ gap rest, Gap gap rest → gap ++ rest = text → gap = []

theorem splitGap_splitGap (text : List Char) :
    splitGap (splitGap text).2 = ([], (splitGap text).2) := by
  fun_induction splitGap text with
  | case1 rest cut ih => exact ih
  | case2 rest inside rest' hsplit _ cut ih => exact ih
  | case3 rest hnone =>
    rw [splitGap]
    split
    · rename_i hsome
      rw [hnone] at hsome
      cases hsome
    · rfl
  | case4 c rest _ _ hc cut ih => exact ih
  | case5 c rest hline hblock hc => rw [splitGap.eq_3 _ _ hline hblock, if_neg hc]
  | case6 => exact splitGap_nil

/-- The scanner leaves no gap behind. -/
theorem noGap_splitGap (text : List Char) : NoGap (splitGap text).2 := by
  intro gap rest hgap heq
  have hnone := congrArg Prod.fst (splitGap_splitGap text)
  rw [← heq, splitGap_append hgap] at hnone
  exact (List.append_eq_nil_iff.mp hnone).1

end Scan
end Octet
