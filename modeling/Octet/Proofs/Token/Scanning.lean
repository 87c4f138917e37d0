import Octet.Proofs.Token.Spelling
import Mathlib.Data.List.TakeWhile

/-!
# The scanner against the spellings

The scanner is compared with the rules of `Spells` in three ways.

* `spells_of_scanLexeme`: what it cuts off is a spelling, of the token it is taken for.
* `length_le_of_scanLexeme`: no spelling in front of the text is longer.
* `scanLexeme_of_spells`: a spelling in front of a blank, or at the end, is cut off whole.

The first two describe every lexeme that is read.  The third one says which texts are read at all:
a blank behind a spelling is enough, whatever the spelling is.  Without one it could go on (`=`
before `=`), be taken for more than it is (`1` before `.5`) or open a comment (`/` before `*`).
-/

namespace Octet
namespace Scan

/-! ## Stretches of a text

A scan takes the characters of a class as far as they go.
-/

section Stretch

variable {p : Char → Bool} {front text : List Char}

theorem length_le_takeWhile (hfront : ∀ c ∈ front, p c) (h : front <+: text) :
    front.length ≤ (text.takeWhile p).length := by
  obtain ⟨rest, rfl⟩ := h
  rw [List.takeWhile_append_of_pos hfront, List.length_append]
  omega

theorem bne_of_notMem {c : Char} (hc : c ∉ text) : ∀ d ∈ text, (d != c) = true := by
  intro d hd
  rw [bne_iff_ne]
  rintro rfl
  exact hc hd

theorem takeWhile_of_boundary (hfront : ∀ c ∈ front, p c)
    (htext : ∀ c ∈ text.head?, p c = false) : (front ++ text).takeWhile p = front := by
  rw [List.takeWhile_append_of_pos hfront]
  cases text with
  | nil => simp
  | cons c text => simp [htext c rfl]

theorem dropWhile_of_boundary (hfront : ∀ c ∈ front, p c)
    (htext : ∀ c ∈ text.head?, p c = false) : (front ++ text).dropWhile p = text := by
  rw [List.dropWhile_append_of_pos hfront]
  cases text with
  | nil => rfl
  | cons c text => simp [htext c rfl]

end Stretch

/-! ## What the scanner cuts off -/

/-- A mark that starts the text begins with its first character. -/
theorem mark_at_head {c : Char} {text chars : List Char} {kind : TokenKind}
    (hmark : (chars, kind) ∈ marks) (h : chars <+: c :: text) :
    ∃ tail, chars = c :: tail ∧ tail <+: text ∧ (c :: tail, kind) ∈ marks := by
  cases chars with
  | nil => exact absurd hmark nil_notMem_marks
  | cons d tail =>
    obtain ⟨rfl, htail⟩ := List.cons_prefix_cons.mp h
    exact ⟨tail, rfl, htail, hmark⟩

/-- No mark has more than two characters. -/
theorem length_le_two_of_mem_marks {chars : List Char} {kind : TokenKind}
    (h : (chars, kind) ∈ marks) : chars.length ≤ 2 := by
  have htable : ∀ mark ∈ marks, mark.1.length ≤ 2 := by decide
  exact htable _ h

/-- What a number is read as: all of its digits, and the digits behind the point if the point is
followed by one. -/
theorem scanNumber_cases {text rest : List Char} {l : Lexeme}
    (h : scanNumber text = .ok (l, rest)) :
    (l = ⟨.number, text.takeWhile Char.isDigit,
        some (.int (Decimal.value (text.takeWhile Char.isDigit)))⟩ ∧
      (text.takeWhile Char.isDigit).length ≤ 4300 ∧
      ∀ d tail, text.dropWhile Char.isDigit = '.' :: d :: tail → d.isDigit = false) ∨
    ∃ d tail, text.dropWhile Char.isDigit = '.' :: d :: tail ∧ d.isDigit ∧
      l = ⟨.number, text.takeWhile Char.isDigit ++ '.' :: (d :: tail).takeWhile Char.isDigit,
        some (.real (Decimal.fraction (text.takeWhile Char.isDigit)
          ((d :: tail).takeWhile Char.isDigit)))⟩ := by
  have hinteger : ∀ {tail}, scanNumber.integer (text.takeWhile Char.isDigit) tail = .ok (l, rest) →
      l = ⟨.number, text.takeWhile Char.isDigit,
        some (.int (Decimal.value (text.takeWhile Char.isDigit)))⟩ ∧
      (text.takeWhile Char.isDigit).length ≤ 4300 := by
    intro tail hint
    unfold scanNumber.integer at hint
    split at hint
    · cases hint
    · rename_i hlen
      cases hint
      exact ⟨rfl, Nat.not_lt.mp hlen⟩
  simp only [scanNumber] at h
  split at h
  · rename_i d tail hdrop
    split at h
    · rename_i hd
      cases h
      refine .inr ⟨d, tail, hdrop, hd, ?_⟩
      simp [hd]
    · rename_i hd
      refine .inl ⟨(hinteger h).1, (hinteger h).2, ?_⟩
      intro d' tail' hdrop'
      rw [hdrop] at hdrop'
      cases hdrop'
      exact Bool.eq_false_iff.mpr hd
  · rename_i hdrop
    exact .inl ⟨(hinteger h).1, (hinteger h).2, fun d tail hd => absurd hd (hdrop d tail)⟩

/-- **The scanner by first characters.**  It cuts off the longest mark, a text, a number or a
word. -/
theorem scanLexeme_cases {c : Char} {text rest : List Char} {l : Lexeme}
    (h : scanLexeme c text = .ok (l, rest)) :
    ((l.chars, l.kind) ∈ marks ∧ l.value = none ∧ (∃ tail, l.chars = c :: tail) ∧
      ∀ chars kind, (chars, kind) ∈ marks → chars <+: c :: text →
        chars.length ≤ l.chars.length) ∨
    (c = '"' ∧ scanString text = .ok (l, rest)) ∨
    (c.isDigit ∧ scanNumber (c :: text) = .ok (l, rest)) ∨
    (startsWord c ∧ scanWord (c :: text) = (l, rest)) := by
  simp only [scanLexeme] at h
  split at h
  · cases h
  split at h
  · rename_i kind hsingle
    cases h
    refine .inl ⟨mem_marks_cons.mpr (.inl ⟨rfl, hsingle⟩), rfl, ⟨[], rfl⟩, ?_⟩
    intro chars kind' hmark hchars
    obtain ⟨tail, rfl, -, hmark⟩ := mark_at_head hmark hchars
    obtain ⟨hequal, hdouble⟩ := withEqual?_of_single? hsingle
    rcases mem_marks_cons.mp hmark with ⟨rfl, -⟩ | ⟨rfl, -⟩ | ⟨rfl, a, h⟩ | ⟨rfl, h⟩
    · rfl
    · rfl
    · rw [hequal] at h; cases h
    · rw [hdouble] at h; cases h
  split at h
  · rename_i hsingle _ alone paired hequal
    split at h
    · cases h
      refine .inl ⟨mem_marks_cons.mpr (.inr (.inr (.inl ⟨rfl, alone, hequal⟩))), rfl,
        ⟨_, rfl⟩, fun chars kind hmark _ => length_le_two_of_mem_marks hmark⟩
    · rename_i hnext
      cases h
      refine .inl ⟨mem_marks_cons.mpr (.inr (.inl ⟨rfl, paired, hequal⟩)), rfl, ⟨_, rfl⟩, ?_⟩
      intro chars kind' hmark hchars
      obtain ⟨tail, rfl, ⟨after, hafter⟩, hmark⟩ := mark_at_head hmark hchars
      rcases mem_marks_cons.mp hmark with ⟨rfl, -⟩ | ⟨rfl, -⟩ | ⟨rfl, -⟩ | ⟨rfl, h⟩
      · rfl
      · rfl
      · exact absurd hafter.symm (hnext after)
      · rw [(single?_of_withEqual? hequal).2] at h; cases h
  split at h
  · rename_i kind hdouble
    split at h
    · cases h
      refine .inl ⟨mem_marks_cons.mpr (.inr (.inr (.inr ⟨rfl, hdouble⟩))), rfl,
        ⟨_, rfl⟩, fun chars kind hmark _ => length_le_two_of_mem_marks hmark⟩
    · cases h
  split at h
  · rename_i hquote
    exact .inr (.inl ⟨beq_iff_eq.mp hquote, h⟩)
  split at h
  · exact .inr (.inr (.inl ⟨‹_›, h⟩))
  split at h
  · exact .inr (.inr (.inr ⟨‹_›, Except.ok.inj h⟩))
  · cases h

theorem isDigit_of_mem_takeWhile {text : List Char} :
    ∀ d ∈ text.takeWhile Char.isDigit, d.isDigit :=
  fun _ hd => List.mem_takeWhile_imp hd

theorem spells_of_scanString {text rest : List Char} {l : Lexeme}
    (h : scanString text = .ok (l, rest)) : Spells l.kind l.chars l.value := by
  simp only [scanString] at h
  split at h
  · rename_i quote tail hdrop
    cases h
    have hquote : quote = '"' := by
      have hhead := List.head?_dropWhile_not (· != '"') text
      rw [hdrop] at hhead
      simpa using hhead
    rw [hquote]
    refine .string fun hmem => ?_
    simpa using List.mem_takeWhile_imp hmem
  · cases h

theorem spells_of_scanNumber {c : Char} {text rest : List Char} {l : Lexeme} (hc : c.isDigit)
    (h : scanNumber (c :: text) = .ok (l, rest)) : Spells l.kind l.chars l.value := by
  have hwhole : (c :: text).takeWhile Char.isDigit ≠ [] := by simp [hc]
  rcases scanNumber_cases h with ⟨rfl, hlen, -⟩ | ⟨d, tail, -, hd, rfl⟩
  · rw [Decimal.value_eq_ofDigits]
    exact .integer hwhole isDigit_of_mem_takeWhile hlen
  · exact .fraction hwhole (by simp [hd]) isDigit_of_mem_takeWhile isDigit_of_mem_takeWhile

/-- What is cut off is a spelling of the token it is taken for. -/
theorem spells_of_scanLexeme {c : Char} {text rest : List Char} {l : Lexeme}
    (h : scanLexeme c text = .ok (l, rest)) : Spells l.kind l.chars l.value := by
  rcases scanLexeme_cases h with ⟨hmark, hvalue, -, -⟩ | ⟨-, h⟩ | ⟨hc, h⟩ | ⟨hc, h⟩
  · rw [hvalue]
    exact .mark hmark
  · exact spells_of_scanString h
  · exact spells_of_scanNumber hc h
  · cases h
    rw [List.takeWhile_cons_of_pos (continuesWord_of_startsWord hc)]
    exact spells_ofWord hc fun d hd => List.mem_takeWhile_imp hd

/-! ## No longer spelling

A spelling in front of the same text begins with the same character, so it comes from the same
rule.
-/

theorem length_le_of_scanString {text rest inside : List Char} {l : Lexeme}
    (h : scanString text = .ok (l, rest)) (hinside : '"' ∉ inside)
    (htext : inside ++ ['"'] <+: text) : inside.length + 2 ≤ l.chars.length := by
  have hlen := length_le_takeWhile (bne_of_notMem hinside) ((List.prefix_append _ _).trans htext)
  simp only [scanString] at h
  split at h
  · cases h
    simp only [List.length_cons, List.length_append, List.length_nil]
    omega
  · cases h

theorem length_le_of_scanNumber {text rest chars : List Char} {l : Lexeme}
    (h : scanNumber text = .ok (l, rest)) (hchars : chars <+: text)
    (hnumber : (∀ d ∈ chars, d.isDigit) ∨
      ∃ whole part, part ≠ [] ∧ (∀ d ∈ whole, d.isDigit) ∧ (∀ d ∈ part, d.isDigit) ∧
        chars = whole ++ '.' :: part) :
    chars.length ≤ l.chars.length := by
  rcases hnumber with hdigits | ⟨whole, part, hpart, hw, hp, rfl⟩
  · have hlen := length_le_takeWhile hdigits hchars
    rcases scanNumber_cases h with ⟨rfl, -, -⟩ | ⟨d, tail, -, -, rfl⟩
    · exact hlen
    · simp only [List.length_append]
      omega
  · obtain ⟨behind, rfl⟩ := hchars
    obtain ⟨d, ds, rfl⟩ := List.exists_cons_of_ne_nil hpart
    have hpoint : ∀ c ∈ ('.' :: d :: (ds ++ behind)).head?, c.isDigit = false := by simp
    -- the point ends the digits in front of it, and a digit follows it
    have htake := takeWhile_of_boundary hw hpoint
    have hdrop := dropWhile_of_boundary hw hpoint
    have hd : d.isDigit := hp d (List.mem_cons_self ..)
    simp only [List.append_assoc, List.cons_append] at h
    rcases scanNumber_cases h with ⟨-, -, hnone⟩ | ⟨d', tail, hdrop', -, rfl⟩
    · exact absurd ((hnone d _ hdrop).symm.trans hd) (by decide)
    · obtain ⟨-, rfl, rfl⟩ : '.' = '.' ∧ d = d' ∧ ds ++ behind = tail := by
        simpa using hdrop.symm.trans hdrop'
      have hlen := length_le_takeWhile hp (List.prefix_append (d :: ds) behind)
      simp only [List.cons_append] at hlen
      rw [htake]
      simp only [List.length_append, List.length_cons] at hlen ⊢
      omega

/-- **The longest spelling.**  No spelling in front of the text is longer than what the scanner
cuts off. -/
theorem length_le_of_scanLexeme {c : Char} {text rest : List Char} {l : Lexeme}
    (h : scanLexeme c text = .ok (l, rest)) {kind : TokenKind} {chars : List Char}
    {value : Option Scalar} (hspells : Spells kind chars value) (hchars : chars <+: c :: text) :
    chars.length ≤ l.chars.length := by
  cases chars with
  | nil => exact Nat.zero_le _
  | cons d tail =>
    obtain ⟨rfl, htail⟩ := List.cons_prefix_cons.mp hchars
    rcases scanLexeme_cases h with ⟨hmark, -, ⟨mark, hl⟩, hlongest⟩ | ⟨rfl, h⟩ | ⟨hc, h⟩ | ⟨hc, h⟩
    · rw [hl] at hmark
      exact hlongest _ kind (hspells.of_mark hmark) hchars
    · obtain ⟨inside, hinside, rfl⟩ := hspells.of_quote
      have hlen := length_le_of_scanString h hinside htail
      simp only [List.length_cons, List.length_append, List.length_nil]
      omega
    · exact length_le_of_scanNumber h hchars (hspells.of_isDigit hc)
    · cases h
      refine length_le_takeWhile (fun e he => ?_) hchars
      rcases List.mem_cons.mp he with rfl | he
      · exact continuesWord_of_startsWord hc
      · exact hspells.of_startsWord hc e he

/-! ## A spelling in front of a blank -/

theorem single?_eq_none_of_startsWord {c : Char} (hc : startsWord c) :
    single? c = none ∧ withEqual? c = none ∧ doubled? c = none :=
  single?_eq_none fun chars kind h =>
    absurd ((head_of_mem_marks h).2.1.symm.trans hc) (by decide)

theorem single?_eq_none_of_isDigit {c : Char} (hc : c.isDigit) :
    single? c = none ∧ withEqual? c = none ∧ doubled? c = none :=
  single?_eq_none fun chars kind h =>
    absurd ((head_of_mem_marks h).2.2.1.symm.trans hc) (by decide)

theorem scanLexeme_of_startsWord {c : Char} (hc : startsWord c) (text : List Char) :
    scanLexeme c text = .ok (scanWord (c :: text)) := by
  obtain ⟨hs, he, hd⟩ := single?_eq_none_of_startsWord hc
  have hslash : c ≠ '/' := by rintro rfl; exact absurd hc (by decide)
  have hquote : c ≠ '"' := by rintro rfl; exact absurd hc (by decide)
  have hdigit : c.isDigit = false := by
    rw [Bool.eq_false_iff]
    intro h
    exact absurd ((not_startsWord_of_isDigit h).symm.trans hc) (by decide)
  simp [scanLexeme, hs, he, hd, hslash, hquote, hdigit, hc]

theorem scanLexeme_of_isDigit {c : Char} (hc : c.isDigit) (text : List Char) :
    scanLexeme c text = scanNumber (c :: text) := by
  obtain ⟨hs, he, hd⟩ := single?_eq_none_of_isDigit hc
  have hslash : c ≠ '/' := by rintro rfl; exact absurd hc (by decide)
  have hquote : c ≠ '"' := by rintro rfl; exact absurd hc (by decide)
  simp [scanLexeme, hs, he, hd, hslash, hquote, hc]

theorem scanLexeme_of_mem_marks {c : Char} {tail rest : List Char} {kind : TokenKind}
    (hmark : (c :: tail, kind) ∈ marks) (hrest : ∀ d ∈ rest.head?, isBlank d) :
    scanLexeme c (tail ++ rest) = .ok (⟨kind, c :: tail, none⟩, rest) := by
  have hstar : rest.head? ≠ some '*' := fun h => (of_isBlank (hrest '*' h)).2.2.2.1 rfl
  have hequal : ∀ tail, rest ≠ '=' :: tail := by
    rintro tail rfl
    exact (of_isBlank (hrest '=' rfl)).2.2.1 rfl
  have hslash : ∀ {kinds}, withEqual? c = some kinds → c ≠ '/' := by
    rintro kinds h rfl
    cases h
  rcases mem_marks_cons.mp hmark with ⟨rfl, h⟩ | ⟨rfl, p, h⟩ | ⟨rfl, a, h⟩ | ⟨rfl, h⟩
  · simp [scanLexeme, h, hstar]
  · simp [scanLexeme, (single?_of_withEqual? h).1, h, hslash h]
  · simp [scanLexeme, (single?_of_withEqual? h).1, h]
  · have hslash : c ≠ '/' := by rintro rfl; cases h
    obtain ⟨hs, he⟩ := single?_of_doubled? h
    simp [scanLexeme, hs, he, h, hslash]

theorem scanWord_of_boundary {word rest : List Char} (hword : ∀ d ∈ word, continuesWord d)
    (hrest : ∀ d ∈ rest.head?, continuesWord d = false) :
    scanWord (word ++ rest) = (⟨.ofWord (String.ofList word), word, none⟩, rest) := by
  rw [scanWord, takeWhile_of_boundary hword hrest, dropWhile_of_boundary hword hrest]

/-- A text ends at its quote, whatever follows. -/
theorem scanString_of_notMem {inside : List Char} (hinside : '"' ∉ inside) (rest : List Char) :
    scanString (inside ++ '"' :: rest) =
      .ok (⟨.string, '"' :: (inside ++ ['"']), some (.text (String.ofList inside))⟩, rest) := by
  have hend : ∀ c ∈ ('"' :: rest).head?, (c != '"') = false := by simp
  rw [scanString, takeWhile_of_boundary (bne_of_notMem hinside) hend,
    dropWhile_of_boundary (bne_of_notMem hinside) hend]

/-- Digits without a point behind them are an integer, if they are anything. -/
theorem scanNumber_of_boundary {digits rest : List Char} (hdigits : ∀ d ∈ digits, d.isDigit)
    (hrest : ∀ d ∈ rest.head?, isBlank d) :
    scanNumber (digits ++ rest) = scanNumber.integer digits rest := by
  have hend : ∀ d ∈ rest.head?, d.isDigit = false := fun d hd => (of_isBlank (hrest d hd)).1
  have hpoint : ∀ tail, rest ≠ '.' :: tail := by
    rintro tail rfl
    exact (of_isBlank (hrest '.' rfl)).2.2.2.2 rfl
  rw [scanNumber, takeWhile_of_boundary hdigits hend, dropWhile_of_boundary hdigits hend]
  split
  · exact absurd rfl (hpoint _)
  · rfl

theorem scanNumber_of_digits {digits rest : List Char} (hdigits : ∀ d ∈ digits, d.isDigit)
    (hlen : digits.length ≤ 4300) (hrest : ∀ d ∈ rest.head?, isBlank d) :
    scanNumber (digits ++ rest) =
      .ok (⟨.number, digits, some (.int (Decimal.value digits))⟩, rest) := by
  have hlen' : ¬ Decimal.maxDigits < digits.length := Nat.not_lt.mpr hlen
  rw [scanNumber_of_boundary hdigits hrest, scanNumber.integer, if_neg hlen']

theorem scanNumber_of_tooMany {digits rest : List Char} (hdigits : ∀ d ∈ digits, d.isDigit)
    (hlen : 4300 < digits.length) (hrest : ∀ d ∈ rest.head?, isBlank d) :
    scanNumber (digits ++ rest) = .error (.tooManyDigits digits.length) := by
  have hlen' : Decimal.maxDigits < digits.length := hlen
  rw [scanNumber_of_boundary hdigits hrest, scanNumber.integer, if_pos hlen']

theorem scanNumber_of_fraction {whole part rest : List Char} (hpart : part ≠ [])
    (hw : ∀ d ∈ whole, d.isDigit) (hp : ∀ d ∈ part, d.isDigit)
    (hrest : ∀ d ∈ rest.head?, isBlank d) :
    scanNumber (whole ++ '.' :: (part ++ rest)) =
      .ok (⟨.number, whole ++ '.' :: part, some (.real (Decimal.fraction whole part))⟩, rest) := by
  obtain ⟨d, ds, rfl⟩ := List.exists_cons_of_ne_nil hpart
  have hd : d.isDigit := hp d (List.mem_cons_self ..)
  have hds : ∀ e ∈ ds, e.isDigit := fun e he => hp e (List.mem_cons_of_mem _ he)
  have hpoint : ∀ c ∈ ('.' :: d :: (ds ++ rest)).head?, c.isDigit = false := by simp
  have hend : ∀ d ∈ rest.head?, d.isDigit = false := fun d hd => (of_isBlank (hrest d hd)).1
  rw [List.cons_append, scanNumber, takeWhile_of_boundary hw hpoint,
    dropWhile_of_boundary hw hpoint]
  simp only [hd, if_true, takeWhile_of_boundary hds hend, dropWhile_of_boundary hds hend]

/-- **Spellings are read back.**  In front of a blank, or at the end, the scanner cuts off exactly
the spelling and knows its token. -/
theorem scanLexeme_of_spells {kind : TokenKind} {chars rest : List Char} {value : Option Scalar}
    (h : Spells kind chars value) (hrest : ∀ c ∈ rest.head?, isBlank c) :
    ∃ c tail, chars = c :: tail ∧
      scanLexeme c (tail ++ rest) = .ok (⟨kind, chars, value⟩, rest) := by
  have hwords : ∀ {c : Char} {word : List Char}, startsWord c → (∀ d ∈ word, continuesWord d) →
      scanLexeme c (word ++ rest) =
        .ok (⟨.ofWord (String.ofList (c :: word)), c :: word, none⟩, rest) := by
    intro c word hc hword
    have hall : ∀ d ∈ c :: word, continuesWord d :=
      List.forall_mem_cons.mpr ⟨continuesWord_of_startsWord hc, hword⟩
    have hend : ∀ d ∈ rest.head?, continuesWord d = false :=
      fun d hd => (of_isBlank (hrest d hd)).2.1
    rw [scanLexeme_of_startsWord hc, ← List.cons_append, scanWord_of_boundary hall hend]
  cases h with
  | mark hmark =>
    cases chars with
    | nil => exact absurd hmark nil_notMem_marks
    | cons c tail => exact ⟨c, tail, rfl, scanLexeme_of_mem_marks hmark hrest⟩
  | keyword hkind =>
    obtain ⟨c, word, rfl, hc, hword⟩ := word_of_mem_keywords hkind
    refine ⟨c, word, rfl, ?_⟩
    rw [hwords hc hword, ofWord_of_mem hkind]
  | identifier hc hword hnone =>
    refine ⟨_, _, rfl, ?_⟩
    rw [hwords hc hword, ofWord_of_notMem hnone]
  | string hinside =>
    refine ⟨_, _, rfl, ?_⟩
    rw [List.append_assoc]
    exact scanString_of_notMem hinside rest
  | integer hne hdigits hlen =>
    obtain ⟨c, tail, rfl⟩ := List.exists_cons_of_ne_nil hne
    refine ⟨c, tail, rfl, ?_⟩
    rw [scanLexeme_of_isDigit (hdigits c (List.mem_cons_self ..)), ← List.cons_append,
      scanNumber_of_digits hdigits hlen hrest, Decimal.value_eq_ofDigits]
  | @fraction whole part hwhole hpart hw hp =>
    obtain ⟨c, tail, rfl⟩ := List.exists_cons_of_ne_nil hwhole
    refine ⟨c, tail ++ '.' :: part, rfl, ?_⟩
    rw [scanLexeme_of_isDigit (hw c (List.mem_cons_self ..)), ← scanNumber_of_fraction hpart hw hp
      hrest]
    simp

/-- A text spells one token at most. -/
theorem Spells.unique {kind kind' : TokenKind} {chars : List Char} {value value' : Option Scalar}
    (h : Spells kind chars value) (h' : Spells kind' chars value') :
    kind = kind' ∧ value = value' := by
  have hend : ∀ c ∈ ([] : List Char).head?, isBlank c := by simp
  obtain ⟨c, tail, rfl, hscan⟩ := scanLexeme_of_spells h hend
  obtain ⟨c', tail', heq, hscan'⟩ := scanLexeme_of_spells h' hend
  obtain ⟨rfl, rfl⟩ := List.cons.inj heq
  have hsame := Except.ok.inj (hscan.symm.trans hscan')
  simpa using hsame

end Scan
end Octet
