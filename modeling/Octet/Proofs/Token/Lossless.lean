import Octet.Token.Cursor
import Octet.Proofs.Token.Gap

/-!
# What the tokens of a text say about it

`Reads front text tokens` says what the tokens of `text` are, with `front` in front of it: `text`
is made of their spellings with gaps between them, every token stands where its position says, and
every spelling is the longest one there is at its place.  No token begins where a gap could go on,
so that a comment is never read as two slashes.

## Places

A position is computed along the text, by a fold.  What it means is said without one: the line is
one more than the line feeds in front, and the column one more than the characters behind the last
of them (`place`).  `place_eq` compares the two, and it is the only thing about positions that the
result needs, since a position is only ever moved along what was just cut off.

## The longest spelling

`Longest t text` says that the spelling of `t` is in front of `text`, that no longer text in front
of it spells anything, and that `t` is the only token spelled so.  The latter is where a keyword
and an identifier would compete.

The result is `reads_of_tokenize`.
-/

namespace Octet

/-! ## Places in a text -/

/-- The place behind a text: one more than the line feeds in it, and one more than the characters
behind the last line feed. -/
def place (front : List Char) : Pos :=
  ⟨1 + front.count '\n', 1 + (front.reverse.takeWhile (· != '\n')).length⟩

theorem place_concat (front : List Char) (c : Char) :
    place (front ++ [c]) = (place front).step c := by
  by_cases hc : c = '\n'
  · subst hc
    simp [place, Pos.step]
    omega
  · simp [place, Pos.step, hc, List.count_append]
    omega

/-- Moving along a text leads to the place behind it. -/
theorem place_append (front text : List Char) :
    place (front ++ text) = (place front).after text := by
  induction text generalizing front with
  | nil => simp
  | cons c text ih =>
    rw [← List.singleton_append, ← List.append_assoc, ih, place_concat, Pos.after_append]
    rfl

/-! ## The longest spelling -/

open Scan

/-- A token is the longest one in front of a text. -/
structure Longest (t : Token) (text : List Char) : Prop where
  spells : Spells t.kind t.lexeme.toList t.value
  front : t.lexeme.toList <+: text
  longest : ∀ {kind : TokenKind} {chars : List Char} {value : Option Scalar},
    Spells kind chars value → chars <+: text → chars.length ≤ t.lexeme.toList.length
  unique : ∀ {kind : TokenKind} {value : Option Scalar},
    Spells kind t.lexeme.toList value → kind = t.kind ∧ value = t.value

/-- The tokens of a text with another one in front of it. -/
inductive Reads : List Char → List Char → List Token → Prop
  | eof {front gap : List Char} :
      Gap gap [] → Reads front gap [.eof (place (front ++ gap))]
  | token {front gap rest : List Char} {t : Token} {tokens : List Token} :
      Gap gap (t.lexeme.toList ++ rest) →
      NoGap (t.lexeme.toList ++ rest) →
      t.pos = place (front ++ gap) →
      Longest t (t.lexeme.toList ++ rest) →
      Reads (front ++ gap ++ t.lexeme.toList) rest tokens →
      Reads front (gap ++ t.lexeme.toList ++ rest) (t :: tokens)

theorem longest_of_scanLexeme {c : Char} {text rest : List Char} {l : Lexeme} (pos : Pos)
    (h : scanLexeme c text = .ok (l, rest)) :
    Longest ⟨l.kind, String.ofList l.chars, pos, l.value⟩ (c :: text) := by
  have hspells := spells_of_scanLexeme h
  refine ⟨?_, ?_, ?_, ?_⟩ <;> simp only [String.toList_ofList]
  · exact hspells
  · exact ⟨rest, append_scanLexeme h⟩
  · exact length_le_of_scanLexeme h
  · exact fun h' => h'.unique hspells

/-- **One token.**  A cursor reads the end behind a gap, or the longest spelling behind one. -/
theorem next_cases {c : Cursor} {t : Token} {behind : Option Cursor}
    (h : c.next = .ok (t, behind)) :
    (Gap c.text [] ∧ t = .eof (c.pos.after c.text) ∧ behind = none) ∨
    ∃ gap rest, c.text = gap ++ t.lexeme.toList ++ rest ∧ Gap gap (t.lexeme.toList ++ rest) ∧
      NoGap (t.lexeme.toList ++ rest) ∧ t.pos = c.pos.after gap ∧
      Longest t (t.lexeme.toList ++ rest) ∧
      behind = some ⟨t.pos.after t.lexeme.toList, rest⟩ := by
  have hgap := gap_splitGap c.text
  have hnone := noGap_splitGap c.text
  have htext := append_splitGap c.text
  simp only [Cursor.next] at h
  split at h
  · rename_i hend
    cases h
    rw [hend] at hgap htext
    rw [List.append_nil] at htext
    rw [htext] at hgap ⊢
    exact .inl ⟨hgap, rfl, rfl⟩
  · rename_i first text hfirst
    split at h
    · cases h
    · rename_i l rest hscan
      cases h
      have hlongest := longest_of_scanLexeme (c.pos.after (splitGap c.text).1) hscan
      rw [hfirst, ← append_scanLexeme hscan] at hgap hnone htext
      rw [← append_scanLexeme hscan] at hlongest
      refine .inr ⟨(splitGap c.text).1, rest, ?_⟩
      simp only [String.toList_ofList, List.append_assoc]
      exact ⟨htext.symm, hgap, hnone, trivial, hlongest, trivial⟩

/-- What a cursor reads, from its place on. -/
theorem reads_of_tokens {c : Cursor} {front : List Char} {tokens : List Token}
    (hpos : c.pos = place front) (h : c.tokens = (tokens, none)) : Reads front c.text tokens := by
  fun_induction Cursor.tokens c generalizing front tokens with
  | case1 c e hnext => cases h
  | case2 c t hnext =>
    cases h
    rcases next_cases hnext with ⟨hgap, rfl, -⟩ | ⟨gap, rest, -, -, -, -, -, hbehind⟩
    · rw [hpos, ← place_append]
      exact .eof hgap
    · cases hbehind
  | case3 c t c' hnext _ later =>
    rename_i ih
    obtain ⟨rfl, hlater⟩ := Prod.mk.inj h
    rcases next_cases hnext with
      ⟨-, -, hbehind⟩ | ⟨gap, rest, htext, hgap, hnone, htpos, hlongest, hbehind⟩
    · cases hbehind
    · obtain rfl := Option.some.inj hbehind
      rw [hpos, ← place_append] at htpos
      have hplace : t.pos.after t.lexeme.toList = place (front ++ gap ++ t.lexeme.toList) := by
        rw [htpos, place_append (front ++ gap)]
      have hreads := ih hplace (Prod.ext rfl hlater)
      rw [htext]
      exact .token hgap hnone htpos hlongest hreads

/-- **What is read is all there is.** -/
theorem reads_of_tokenize {source : String} {tokens : List Token}
    (h : tokenize source = .ok tokens) : Reads [] source.toList tokens := by
  rw [tokenize] at h
  split at h
  · rename_i tokens' htokens
    cases h
    exact reads_of_tokens (c := Cursor.ofText source) rfl htokens
  · cases h

/-- A comment, two lines and an operator that could have been longer. -/
theorem reads_of_tokenize_lines :
    tokenize "if=/*=*/\n =x" = .ok
      [⟨.ifWord, "if", ⟨1, 1⟩, none⟩, ⟨.equal, "=", ⟨1, 3⟩, none⟩, ⟨.equal, "=", ⟨2, 2⟩, none⟩,
        ⟨.identifier, "x", ⟨2, 3⟩, none⟩, .eof ⟨2, 4⟩] ∧
    Reads [] "if=/*=*/\n =x".toList
      [⟨.ifWord, "if", ⟨1, 1⟩, none⟩, ⟨.equal, "=", ⟨1, 3⟩, none⟩, ⟨.equal, "=", ⟨2, 2⟩, none⟩,
        ⟨.identifier, "x", ⟨2, 3⟩, none⟩, .eof ⟨2, 4⟩] := by
  have hsome : (tokenize "if=/*=*/\n =x").toOption = some
      [⟨.ifWord, "if", ⟨1, 1⟩, none⟩, ⟨.equal, "=", ⟨1, 3⟩, none⟩, ⟨.equal, "=", ⟨2, 2⟩, none⟩,
        ⟨.identifier, "x", ⟨2, 3⟩, none⟩, .eof ⟨2, 4⟩] := by
    decide +kernel
  cases hread : tokenize "if=/*=*/\n =x" with
  | error e =>
    rw [hread] at hsome
    cases hsome
  | ok tokens =>
    rw [hread] at hsome
    cases hsome
    exact ⟨rfl, reads_of_tokenize hread⟩

end Octet
