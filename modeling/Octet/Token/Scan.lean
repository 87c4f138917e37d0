import Octet.Token
import Octet.Text.Quoted

/-!
# Scanning a text into tokens

A program is a sequence of lexemes with gaps between them.  A *gap* is any
sequence of blanks, line comments and block comments; `splitGap` cuts the longest
one off the front of a text.  A *lexeme* is the longest spelling of a token that
the text then starts with; `scanLexeme` cuts it off, or says why there is none.

## Where faults are found

Only `scanLexeme` fails.  A block comment that is never closed is no part of a
gap, so the gap ends in front of it and the fault is found where the comment
opens, just as the fault of an unclosed text is found at its opening quote.

## Positions

Cutting pays no attention to positions.  They are put on afterwards, by
`Cursor.next`: a cursor is a text still to be read together with the position of
its first character, and moving past a stretch of text moves the position along
it.  The two cuts lose nothing: what they take off and what they leave is the
text they were given (`append_splitGap`, `append_scanLexeme`).
-/

namespace Octet

/-- Why a text starts with no token. -/
inductive LexFault where
  /-- A text whose closing quote is missing. -/
  | unterminatedString
  /-- A block comment that is never closed. -/
  | unterminatedComment
  /-- A character that spells an operator only when it is doubled. -/
  | unpaired (c : Char)
  /-- An integer with more digits than are read. -/
  | tooManyDigits (count : Nat)
  /-- A character that starts no token. -/
  | unexpected (c : Char)
  deriving DecidableEq, Repr

/-- The wording of a lexical fault. -/
def LexFault.message : LexFault → String
  | unterminatedString => "Unterminated string"
  | unterminatedComment => "Unterminated block comment"
  | unpaired c =>
    let s := String.singleton c
    "Unexpected character '" ++ s ++ "' (did you mean '" ++ s ++ s ++ "'?)"
  | tooManyDigits count => "Number literal too long (" ++ toString count ++ " digits)"
  | unexpected c => "Unexpected character " ++ Text.quoted (String.singleton c)

/-- A lexical fault and where it was found. -/
structure LexError where
  fault : LexFault
  pos : Pos
  deriving DecidableEq, Repr

namespace Scan

/-! ## Gaps -/

/-- The characters that separate tokens. -/
def isBlank (c : Char) : Bool :=
  c == ' ' || c == '\r' || c == '\t' || c == '\n'

/-- The text up to the end of the first `*/`, and what follows it. -/
def splitComment : List Char → Option (List Char × List Char)
  | '*' :: '/' :: rest => some (['*', '/'], rest)
  | c :: rest => (splitComment rest).map fun cut => (c :: cut.1, cut.2)
  | [] => none

/-- A comment gives back all of its text. -/
theorem append_splitComment {text inside rest : List Char}
    (h : splitComment text = some (inside, rest)) : inside ++ rest = text := by
  fun_induction splitComment text generalizing inside rest with
  | case1 r => simp only [Option.some.injEq, Prod.mk.injEq] at h; simp [← h.1, ← h.2]
  | case2 c r _ ih =>
    obtain ⟨⟨a, b⟩, hab, heq⟩ := Option.map_eq_some_iff.1 h
    simp only [Prod.mk.injEq] at heq
    simp [← heq.1, ← heq.2, ih hab]
  | case3 => simp at h

theorem length_splitComment {text inside rest : List Char}
    (h : splitComment text = some (inside, rest)) : rest.length ≤ text.length := by
  rw [← append_splitComment h]
  simp

/-- The longest gap at the front of a text, and what follows it. -/
def splitGap (text : List Char) : List Char × List Char :=
  match text with
  | '/' :: '/' :: rest =>
    let cut := splitGap (rest.dropWhile (· != '\n'))
    ('/' :: '/' :: (rest.takeWhile (· != '\n') ++ cut.1), cut.2)
  | '/' :: '*' :: rest =>
    match h : splitComment rest with
    | some (inside, rest') =>
      have := length_splitComment h
      let cut := splitGap rest'
      ('/' :: '*' :: (inside ++ cut.1), cut.2)
    | none => ([], '/' :: '*' :: rest)
  | c :: rest =>
    if isBlank c then
      let cut := splitGap rest
      (c :: cut.1, cut.2)
    else ([], c :: rest)
  | [] => ([], [])
termination_by text.length
decreasing_by
  · exact Nat.lt_succ_of_le (Nat.le_succ_of_le (List.dropWhile_sublist _).length_le)
  · exact Nat.lt_succ_of_le (Nat.le_succ_of_le this)
  · exact Nat.lt_succ_self _

/-- A gap gives back all of its text. -/
theorem append_splitGap (text : List Char) :
    (splitGap text).1 ++ (splitGap text).2 = text := by
  fun_induction splitGap text with
  | case1 rest cut ih => simp [cut, ih, List.takeWhile_append_dropWhile]
  | case2 rest inside rest' h _ cut ih => simp [cut, ih, append_splitComment h]
  | case3 => rfl
  | case4 c rest _ _ _ cut ih => simp [cut, ih]
  | case5 => rfl
  | case6 => rfl

theorem length_splitGap (text : List Char) :
    (splitGap text).2.length ≤ text.length := by
  have h := congrArg List.length (append_splitGap text)
  simp only [List.length_append] at h
  omega

/-! ## Lexemes -/

/-- A spelling cut off the front of a text: its kind, its characters and what it
stands for. -/
structure Lexeme where
  kind : TokenKind
  chars : List Char
  value : Option Scalar := none
  deriving DecidableEq, Repr

/-- The characters that are a token by themselves, whatever follows. -/
def single? : Char → Option TokenKind
  | '(' => some .leftParen
  | ')' => some .rightParen
  | '\x7b' => some .leftBrace
  | '\x7d' => some .rightBrace
  | ',' => some .comma
  | '.' => some .dot
  | '-' => some .minus
  | '+' => some .plus
  | ';' => some .semicolon
  | '*' => some .star
  | '%' => some .percent
  | ':' => some .colon
  | '/' => some .slash
  | _ => none

/-- The characters that are one token alone and another one with `=` behind
them. -/
def withEqual? : Char → Option (TokenKind × TokenKind)
  | '!' => some (.bang, .bangEqual)
  | '=' => some (.equal, .equalEqual)
  | '<' => some (.less, .lessEqual)
  | '>' => some (.greater, .greaterEqual)
  | _ => none

/-- The characters that are a token only when they are doubled. -/
def doubled? : Char → Option TokenKind
  | '&' => some .andAnd
  | '|' => some .orOr
  | _ => none

/-- The characters that start a word. -/
def startsWord (c : Char) : Bool :=
  c.isAlpha || c == '_'

/-- The characters that continue a word. -/
def continuesWord (c : Char) : Bool :=
  c.isAlphanum || c == '_'

/-- The number at the front of a text that starts with a digit.  A point belongs
to it only if a digit follows. -/
def scanNumber (text : List Char) : Except LexFault (Lexeme × List Char) :=
  let whole := text.takeWhile Char.isDigit
  match text.dropWhile Char.isDigit with
  | '.' :: d :: rest =>
    if d.isDigit then
      let part := d :: rest.takeWhile Char.isDigit
      .ok (⟨.number, whole ++ '.' :: part, some (.real (Decimal.fraction whole part))⟩,
        rest.dropWhile Char.isDigit)
    else integer whole ('.' :: d :: rest)
  | rest => integer whole rest
where
  /-- An integer of these digits, unless they are too many. -/
  integer (digits rest : List Char) : Except LexFault (Lexeme × List Char) :=
    if Decimal.maxDigits < digits.length then .error (.tooManyDigits digits.length)
    else .ok (⟨.number, digits, some (.int (Decimal.value digits))⟩, rest)

/-- The text whose opening quote was just read. -/
def scanString (text : List Char) : Except LexFault (Lexeme × List Char) :=
  let inside := text.takeWhile (· != '"')
  match text.dropWhile (· != '"') with
  | quote :: rest =>
    .ok (⟨.string, '"' :: (inside ++ [quote]), some (.text (String.ofList inside))⟩, rest)
  | [] => .error .unterminatedString

/-- The word at the front of a text. -/
def scanWord (text : List Char) : Lexeme × List Char :=
  let word := text.takeWhile continuesWord
  (⟨.ofWord (String.ofList word), word, none⟩, text.dropWhile continuesWord)

/-- The lexeme at the front of a text that starts with the given character, and
what follows it.  A comment opening here was not closed, since it would have been
part of the gap in front. -/
def scanLexeme (c : Char) (rest : List Char) : Except LexFault (Lexeme × List Char) :=
  if c == '/' && rest.head? == some '*' then .error .unterminatedComment
  else match single? c with
  | some kind => .ok (⟨kind, [c], none⟩, rest)
  | none => match withEqual? c with
    | some (alone, paired) => match rest with
      | '=' :: rest' => .ok (⟨paired, [c, '='], none⟩, rest')
      | _ => .ok (⟨alone, [c], none⟩, rest)
    | none => match doubled? c with
      | some kind =>
        if rest.head? == some c then .ok (⟨kind, [c, c], none⟩, rest.tail)
        else .error (.unpaired c)
      | none =>
        if c == '"' then scanString rest
        else if c.isDigit then scanNumber (c :: rest)
        else if startsWord c then .ok (scanWord (c :: rest))
        else .error (.unexpected c)

theorem append_integer {digits tail : List Char} {l : Lexeme} {rest : List Char}
    (h : scanNumber.integer digits tail = .ok (l, rest)) : l.chars ++ rest = digits ++ tail := by
  simp only [scanNumber.integer] at h
  split at h
  · cases h
  · cases h; rfl

theorem append_scanNumber {text : List Char} {l : Lexeme} {rest : List Char}
    (h : scanNumber text = .ok (l, rest)) : l.chars ++ rest = text := by
  have htext := List.takeWhile_append_dropWhile (p := Char.isDigit) (l := text)
  simp only [scanNumber] at h
  split at h
  · rename_i d rest' heq
    split at h
    · cases h
      rw [heq] at htext
      simpa [List.takeWhile_append_dropWhile] using htext
    · rw [append_integer h, ← heq, htext]
  · rw [append_integer h, htext]

theorem append_scanString {text : List Char} {l : Lexeme} {rest : List Char}
    (h : scanString text = .ok (l, rest)) : l.chars ++ rest = '"' :: text := by
  have htext := List.takeWhile_append_dropWhile (p := (· != '"')) (l := text)
  simp only [scanString] at h
  split at h
  · rename_i quote rest' heq
    cases h
    rw [heq] at htext
    simpa using htext
  · cases h

/-- A lexeme gives back all of its text. -/
theorem append_scanLexeme {c : Char} {text : List Char} {l : Lexeme} {rest : List Char}
    (h : scanLexeme c text = .ok (l, rest)) : l.chars ++ rest = c :: text := by
  simp only [scanLexeme] at h
  split at h
  · cases h
  split at h
  · cases h; rfl
  split at h
  · split at h <;> cases h <;> rfl
  split at h
  · split at h
    · rename_i hd
      cases h
      cases text with
      | nil => simp at hd
      | cons d tail => simp_all
    · cases h
  split at h
  · rename_i hc
    rw [append_scanString h, beq_iff_eq.1 hc]
  split at h
  · exact append_scanNumber h
  split at h
  · cases h
    exact List.takeWhile_append_dropWhile
  · cases h

theorem chars_integer {digits tail : List Char} {l : Lexeme} {rest : List Char}
    (h : scanNumber.integer digits tail = .ok (l, rest)) : l.chars = digits := by
  simp only [scanNumber.integer] at h
  split at h
  · cases h
  · cases h; rfl

theorem chars_ne_nil_of_scanNumber {c : Char} {text : List Char} {l : Lexeme} {rest : List Char}
    (hc : c.isDigit) (h : scanNumber (c :: text) = .ok (l, rest)) : l.chars ≠ [] := by
  simp only [scanNumber] at h
  split at h
  · split at h
    · cases h; simp
    · simp [chars_integer h, hc]
  · simp [chars_integer h, hc]

/-- A lexeme has at least one character. -/
theorem chars_ne_nil_of_scanLexeme {c : Char} {text : List Char} {l : Lexeme} {rest : List Char}
    (h : scanLexeme c text = .ok (l, rest)) : l.chars ≠ [] := by
  simp only [scanLexeme] at h
  split at h
  · cases h
  split at h
  · cases h; simp
  split at h
  · split at h <;> cases h <;> simp
  split at h
  · split at h <;> cases h; simp
  split at h
  · simp only [scanString] at h
    split at h <;> cases h; simp
  split at h
  · exact chars_ne_nil_of_scanNumber ‹_› h
  split at h
  · rename_i hw
    cases h
    have : continuesWord c := by
      simp only [startsWord, continuesWord, Char.isAlphanum, Bool.or_eq_true] at hw ⊢
      exact hw.imp_left .inl
    simp [this]
  · cases h

/-- A lexeme leaves less than it was given. -/
theorem length_scanLexeme {c : Char} {text : List Char} {l : Lexeme} {rest : List Char}
    (h : scanLexeme c text = .ok (l, rest)) : rest.length < (c :: text).length := by
  have := List.length_pos_iff.2 (chars_ne_nil_of_scanLexeme h)
  rw [← append_scanLexeme h, List.length_append]
  omega

end Scan
end Octet
