import Octet.Token.Scan
import Mathlib.Data.Nat.Digits.Defs
import Mathlib.Data.List.Induction
import Mathlib.Tactic.IntervalCases

/-!
# What spells a token

`Spells kind chars value` says that a text is the spelling of a token of some kind, and what the
token stands for.  It is a list of rules: a table of marks, the keywords, every other word, texts
in quotes, integers and numbers with a point.  Nothing in it reads from left to right and nothing
in it prefers one rule to another; that a text spells at most one token is a result
(`Spells.unique`).

## Marks

The scanner sorts the operators and the punctuation by what may stand behind their first
character.  `mem_marks_cons` compares that with the table of all marks once; everything else knows
the marks through it and through `head_of_mem_marks`, by which no mark begins as a word, a number
or a text does.

## First characters

So the first character of a spelling tells which rule it comes from (`Spells.cases_cons`), and two
spellings in front of the same text come from the same rule.
-/

namespace Octet

namespace Decimal

/-- The digits are read in base ten. -/
theorem value_eq_ofDigits (digits : List Char) :
    value digits = Nat.ofDigits 10 (digits.reverse.map digitValue) := by
  induction digits using List.reverseRecOn with
  | nil => rfl
  | append_singleton digits d ih =>
    have hstep : value (digits ++ [d]) = value digits * 10 + digitValue d := by
      simp [value, List.foldl_append]
    rw [hstep, ih, List.reverse_append, List.reverse_singleton, List.singleton_append,
      List.map_cons, Nat.ofDigits_cons]
    omega

end Decimal

namespace Scan

/-! ## Spellings -/

/-- The operators and the punctuation. -/
def marks : List (List Char × TokenKind) :=
  [(['('], .leftParen), ([')'], .rightParen), (['\x7b'], .leftBrace), (['\x7d'], .rightBrace),
    ([','], .comma), (['.'], .dot), (['-'], .minus), (['+'], .plus), ([';'], .semicolon),
    (['/'], .slash), (['*'], .star), (['%'], .percent), ([':'], .colon),
    (['='], .equal), (['=', '='], .equalEqual), (['!'], .bang), (['!', '='], .bangEqual),
    (['>'], .greater), (['>', '='], .greaterEqual), (['<'], .less), (['<', '='], .lessEqual),
    (['&', '&'], .andAnd), (['|', '|'], .orOr)]

/-- A text is the spelling of a token. -/
inductive Spells : TokenKind → List Char → Option Scalar → Prop
  | mark {kind : TokenKind} {chars : List Char} :
      (chars, kind) ∈ marks → Spells kind chars none
  | keyword {kind : TokenKind} {word : List Char} :
      (String.ofList word, kind) ∈ keywords → Spells kind word none
  | identifier {c : Char} {word : List Char} :
      startsWord c → (∀ d ∈ word, continuesWord d) →
      (∀ kind, (String.ofList (c :: word), kind) ∉ keywords) →
      Spells .identifier (c :: word) none
  | string {inside : List Char} :
      '"' ∉ inside →
      Spells .string ('"' :: (inside ++ ['"'])) (some (.text (String.ofList inside)))
  | integer {digits : List Char} :
      digits ≠ [] → (∀ d ∈ digits, d.isDigit) → digits.length ≤ 4300 →
      Spells .number digits
        (some (.int (Nat.ofDigits 10 (digits.reverse.map Decimal.digitValue) : Nat)))
  | fraction {whole part : List Char} :
      whole ≠ [] → part ≠ [] → (∀ d ∈ whole, d.isDigit) → (∀ d ∈ part, d.isDigit) →
      Spells .number (whole ++ '.' :: part) (some (.real (Decimal.fraction whole part)))

/-! ## Marks by their first character -/

/-- **The table of marks.**  A mark stands alone, has `=` behind it or is doubled. -/
theorem mem_marks_cons {c : Char} {chars : List Char} {kind : TokenKind} :
    (c :: chars, kind) ∈ marks ↔
      chars = [] ∧ single? c = some kind ∨
      chars = [] ∧ (∃ paired, withEqual? c = some (kind, paired)) ∨
      chars = ['='] ∧ (∃ alone, withEqual? c = some (alone, kind)) ∨
      chars = [c] ∧ doubled? c = some kind := by
  constructor
  · intro h
    simp only [marks, List.mem_cons, List.not_mem_nil, or_false, Prod.mk.injEq,
      List.cons.injEq] at h
    rcases h with h | h | h | h | h | h | h | h | h | h | h | h | h | h | h | h | h | h | h | h |
      h | h | h <;> obtain ⟨⟨rfl, rfl⟩, rfl⟩ := h <;> simp [single?, withEqual?, doubled?]
  · rintro (⟨rfl, h⟩ | ⟨rfl, p, h⟩ | ⟨rfl, a, h⟩ | ⟨rfl, h⟩)
    · unfold single? at h
      split at h <;> cases h <;> simp [marks]
    · unfold withEqual? at h
      split at h <;> cases h <;> simp [marks]
    · unfold withEqual? at h
      split at h <;> cases h <;> simp [marks]
    · unfold doubled? at h
      split at h <;> cases h <;> simp [marks]

theorem nil_notMem_marks {kind : TokenKind} : ([], kind) ∉ marks := by
  simp [marks]

/-- No mark begins as a blank, a word, a number or a text does. -/
theorem head_of_mem_marks {c : Char} {chars : List Char} {kind : TokenKind}
    (h : (c :: chars, kind) ∈ marks) :
    isBlank c = false ∧ startsWord c = false ∧ c.isDigit = false ∧ c ≠ '"' := by
  have htable : (marks.all fun mark => mark.1.head?.all fun c =>
      !isBlank c && !startsWord c && !c.isDigit && c != '"') = true := by
    decide
  have hc := List.all_eq_true.mp htable _ h
  simpa [and_assoc] using hc

/-- The scanner's three tables know no other character than the table of marks does. -/
theorem single?_eq_none {c : Char} (hc : ∀ chars kind, (c :: chars, kind) ∉ marks) :
    single? c = none ∧ withEqual? c = none ∧ doubled? c = none := by
  refine ⟨Option.eq_none_iff_forall_ne_some.mpr fun kind h => ?_,
    Option.eq_none_iff_forall_ne_some.mpr fun kinds h => ?_,
    Option.eq_none_iff_forall_ne_some.mpr fun kind h => ?_⟩
  · exact hc [] kind (mem_marks_cons.mpr (.inl ⟨rfl, h⟩))
  · exact hc [] kinds.1 (mem_marks_cons.mpr (.inr (.inl ⟨rfl, kinds.2, h⟩)))
  · exact hc [c] kind (mem_marks_cons.mpr (.inr (.inr (.inr ⟨rfl, h⟩))))

theorem withEqual?_of_single? {c : Char} {kind : TokenKind} (h : single? c = some kind) :
    withEqual? c = none ∧ doubled? c = none := by
  unfold single? at h
  split at h <;> first | exact ⟨rfl, rfl⟩ | cases h

theorem single?_of_withEqual? {c : Char} {kinds : TokenKind × TokenKind}
    (h : withEqual? c = some kinds) : single? c = none ∧ doubled? c = none := by
  unfold withEqual? at h
  split at h <;> first | exact ⟨rfl, rfl⟩ | cases h

theorem single?_of_doubled? {c : Char} {kind : TokenKind} (h : doubled? c = some kind) :
    single? c = none ∧ withEqual? c = none := by
  unfold doubled? at h
  split at h <;> first | exact ⟨rfl, rfl⟩ | cases h

/-! ## Words, digits and blanks -/

theorem continuesWord_of_startsWord {c : Char} (h : startsWord c) : continuesWord c := by
  simp only [startsWord, continuesWord, Char.isAlphanum, Bool.or_eq_true] at h ⊢
  exact h.imp_left .inl

theorem not_startsWord_of_isDigit {c : Char} (h : c.isDigit) : startsWord c = false := by
  obtain ⟨hlo, hhi⟩ := Char.isDigit_iff_toNat.mp h
  have hlo : 48 ≤ c.toNat := hlo
  have hhi : c.toNat ≤ 57 := hhi
  rw [← Char.ofNat_toNat c]
  interval_cases c.toNat <;> rfl

/-- A blank is part of no mark, no number and no word. -/
theorem of_isBlank {c : Char} (h : isBlank c) :
    c.isDigit = false ∧ continuesWord c = false ∧ c ≠ '=' ∧ c ≠ '*' ∧ c ≠ '.' := by
  simp only [isBlank, Bool.or_eq_true, beq_iff_eq] at h
  rcases h with ((rfl | rfl) | rfl) | rfl <;> decide

/-! ## Keywords -/

/-- A keyword is a word. -/
theorem word_of_mem_keywords {word : List Char} {kind : TokenKind}
    (h : (String.ofList word, kind) ∈ keywords) :
    ∃ c rest, word = c :: rest ∧ startsWord c ∧ ∀ d ∈ rest, continuesWord d := by
  have htable : (keywords.all fun entry =>
      entry.1.toList.head?.any startsWord && entry.1.toList.tail.all continuesWord) = true := by
    decide
  have hword := List.all_eq_true.mp htable _ h
  rw [String.toList_ofList, Bool.and_eq_true, List.all_eq_true] at hword
  cases word with
  | nil => exact absurd hword.1 (by decide)
  | cons c rest => exact ⟨c, rest, rfl, hword.1, hword.2⟩

theorem ofWord_of_mem {word : String} {kind : TokenKind} (h : (word, kind) ∈ keywords) :
    TokenKind.ofWord word = kind := by
  have htable : ∀ entry ∈ keywords, TokenKind.ofWord entry.1 = entry.2 := by decide
  exact htable _ h

theorem ofWord_of_notMem {word : String} (h : ∀ kind, (word, kind) ∉ keywords) :
    TokenKind.ofWord word = .identifier := by
  have hlookup : keywords.lookup word = none := by
    rw [List.lookup_eq_none_iff]
    rintro ⟨w, kind⟩ hw
    rw [bne_iff_ne]
    rintro rfl
    exact h kind hw
  rw [TokenKind.ofWord, hlookup]
  rfl

/-- Every word is the spelling of its kind. -/
theorem spells_ofWord {c : Char} {word : List Char} (hc : startsWord c)
    (hword : ∀ d ∈ word, continuesWord d) :
    Spells (.ofWord (String.ofList (c :: word))) (c :: word) none := by
  by_cases h : ∃ kind, (String.ofList (c :: word), kind) ∈ keywords
  · obtain ⟨kind, hkind⟩ := h
    rw [ofWord_of_mem hkind]
    exact .keyword hkind
  · rw [not_exists] at h
    rw [ofWord_of_notMem h]
    exact .identifier hc hword h

/-! ## Which rule a spelling comes from

Its first character tells.
-/

theorem Spells.cases_cons {kind : TokenKind} {c : Char} {chars : List Char}
    {value : Option Scalar} (h : Spells kind (c :: chars) value) :
    (c :: chars, kind) ∈ marks ∨
    (startsWord c ∧ ∀ d ∈ chars, continuesWord d) ∨
    (c = '"' ∧ ∃ inside, '"' ∉ inside ∧ chars = inside ++ ['"']) ∨
    (c.isDigit ∧ ((∀ d ∈ c :: chars, d.isDigit) ∨
      ∃ whole part, part ≠ [] ∧ (∀ d ∈ whole, d.isDigit) ∧ (∀ d ∈ part, d.isDigit) ∧
        c :: chars = whole ++ '.' :: part)) := by
  generalize hspelling : c :: chars = spelling at h
  cases h with
  | mark hmark => exact .inl hmark
  | keyword hkind =>
    obtain ⟨d, rest, heq, hstart, hrest⟩ := word_of_mem_keywords hkind
    obtain ⟨rfl, rfl⟩ := List.cons.inj (hspelling.trans heq)
    exact .inr (.inl ⟨hstart, hrest⟩)
  | identifier hstart hrest =>
    obtain ⟨rfl, rfl⟩ := List.cons.inj hspelling
    exact .inr (.inl ⟨hstart, hrest⟩)
  | string hinside =>
    obtain ⟨rfl, rfl⟩ := List.cons.inj hspelling
    exact .inr (.inr (.inl ⟨rfl, _, hinside, rfl⟩))
  | integer _ hdigits =>
    subst hspelling
    exact .inr (.inr (.inr ⟨hdigits c (List.mem_cons_self ..), .inl hdigits⟩))
  | @fraction whole part hwhole hpart hw hp =>
    obtain ⟨d, ds, rfl⟩ := List.exists_cons_of_ne_nil hwhole
    obtain ⟨rfl, -⟩ := List.cons.inj hspelling
    exact .inr (.inr (.inr ⟨hw c (List.mem_cons_self ..), .inr ⟨_, part, hpart, hw, hp, rfl⟩⟩))

section Begins

variable {kind : TokenKind} {c : Char} {chars : List Char} {value : Option Scalar}

/-- What begins as a mark is a mark. -/
theorem Spells.of_mark {mark : List Char} {kind' : TokenKind}
    (hmark : (c :: mark, kind') ∈ marks) (h : Spells kind (c :: chars) value) :
    (c :: chars, kind) ∈ marks := by
  obtain ⟨-, hword, hdigit, hquote⟩ := head_of_mem_marks hmark
  rcases h.cases_cons with h | ⟨h, -⟩ | ⟨h, -⟩ | ⟨h, -⟩
  · exact h
  · exact absurd (hword.symm.trans h) (by decide)
  · exact absurd h hquote
  · exact absurd (hdigit.symm.trans h) (by decide)

/-- What begins as a word is a word. -/
theorem Spells.of_startsWord (hc : startsWord c) (h : Spells kind (c :: chars) value) :
    ∀ d ∈ chars, continuesWord d := by
  rcases h.cases_cons with h | ⟨-, h⟩ | ⟨rfl, -⟩ | ⟨h, -⟩
  · obtain ⟨-, hword, -, -⟩ := head_of_mem_marks h
    exact absurd (hword.symm.trans hc) (by decide)
  · exact h
  · exact absurd hc (by decide)
  · exact absurd ((not_startsWord_of_isDigit h).symm.trans hc) (by decide)

/-- What begins with a quote is a text. -/
theorem Spells.of_quote (h : Spells kind ('"' :: chars) value) :
    ∃ inside, '"' ∉ inside ∧ chars = inside ++ ['"'] := by
  rcases h.cases_cons with h | ⟨h, -⟩ | ⟨-, h⟩ | ⟨h, -⟩
  · exact absurd rfl (head_of_mem_marks h).2.2.2
  · exact absurd h (by decide)
  · exact h
  · exact absurd h (by decide)

/-- What begins as a number is a number. -/
theorem Spells.of_isDigit (hc : c.isDigit) (h : Spells kind (c :: chars) value) :
    (∀ d ∈ c :: chars, d.isDigit) ∨
      ∃ whole part, part ≠ [] ∧ (∀ d ∈ whole, d.isDigit) ∧ (∀ d ∈ part, d.isDigit) ∧
        c :: chars = whole ++ '.' :: part := by
  rcases h.cases_cons with h | ⟨h, -⟩ | ⟨rfl, -⟩ | ⟨-, h⟩
  · obtain ⟨-, -, hdigit, -⟩ := head_of_mem_marks h
    exact absurd (hdigit.symm.trans hc) (by decide)
  · exact absurd ((not_startsWord_of_isDigit hc).symm.trans h) (by decide)
  · exact absurd hc (by decide)
  · exact h

/-- No spelling begins with a blank. -/
theorem Spells.not_isBlank (h : Spells kind (c :: chars) value) : isBlank c = false := by
  rcases h.cases_cons with h | ⟨h, -⟩ | ⟨rfl, -⟩ | ⟨h, -⟩
  · exact (head_of_mem_marks h).1
  · rw [Bool.eq_false_iff]
    intro hblank
    exact absurd ((of_isBlank hblank).2.1.symm.trans (continuesWord_of_startsWord h)) (by decide)
  · decide
  · rw [Bool.eq_false_iff]
    intro hblank
    exact absurd ((of_isBlank hblank).1.symm.trans h) (by decide)

/-- No spelling but the slash itself begins with a slash. -/
theorem Spells.of_slash (h : Spells kind ('/' :: chars) value) : chars = [] := by
  have hmark := h.of_mark (show (['/'], .slash) ∈ marks by simp [marks])
  rcases mem_marks_cons.mp hmark with ⟨h, -⟩ | ⟨h, -⟩ | ⟨-, _, h⟩ | ⟨-, h⟩
  · exact h
  · exact h
  · cases h
  · cases h

end Begins

end Scan
end Octet
