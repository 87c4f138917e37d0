import Octet.Token.Cursor
import Octet.Proofs.Token.Gap

/-!
# Reading undoes rendering

Tokens are written down with gaps between them, and read again.  `Renders lexemes text` says that
`text` is one way of writing the lexemes down; the gaps are chosen freely.

* A gap in front of the first token may be any closed gap (`Closed`), or none.
* A gap between two tokens begins with a blank (`Separates`), which keeps the two apart whatever
  they are.
* Behind the last token there may be such a gap, or none, and after it a line comment that nothing
  closes (`Trails`).

`tokenize_of_renders` is the result: the tokens read are the lexemes written, with the end behind
them.  Its proof reads one token at a time (`next_of_spells`), and the gap behind a token becomes
the gap in front of the next one.
-/

namespace Octet

/-- What a token says, without where it stands. -/
def Token.toLexeme (t : Token) : Scan.Lexeme :=
  ⟨t.kind, t.lexeme.toList, t.value⟩

namespace Scan

/-! ## Renderings -/

/-- A gap that keeps any two tokens apart. -/
def Separates (gap : List Char) : Prop :=
  Closed gap ∧ ∃ c ∈ gap.head?, isBlank c

/-- What may stand behind the last token. -/
inductive Trails : List Char → Prop
  | nil : Trails []
  | gap {gap : List Char} : Separates gap → Trails gap
  | line {gap inside : List Char} :
      Separates gap → '\n' ∉ inside → Trails (gap ++ '/' :: '/' :: inside)

/-- A text in which lexemes are written one after the other. -/
inductive Renders : List Lexeme → List Char → Prop
  | nil {gap : List Char} : Trails gap → Renders [] gap
  | last {l : Lexeme} {gap : List Char} :
      Spells l.kind l.chars l.value → Trails gap → Renders [l] (l.chars ++ gap)
  | cons {l l' : Lexeme} {lexemes : List Lexeme} {gap text : List Char} :
      Spells l.kind l.chars l.value → Separates gap → Renders (l' :: lexemes) text →
      Renders (l :: l' :: lexemes) (l.chars ++ (gap ++ text))

theorem Separates.isBlank_head {gap : List Char} (h : Separates gap) (text : List Char) :
    ∀ c ∈ (gap ++ text).head?, isBlank c := by
  obtain ⟨-, c, hc, hblank⟩ := h
  obtain ⟨tail, rfl⟩ := List.head?_eq_some_iff.mp hc
  intro d hd
  cases hd
  exact hblank

theorem Trails.isBlank_head {gap : List Char} (h : Trails gap) : ∀ c ∈ gap.head?, isBlank c := by
  cases h with
  | nil => simp
  | gap hgap => simpa using hgap.isBlank_head []
  | line hgap _ => exact hgap.isBlank_head _

theorem Trails.gap_append {gap gap' : List Char} (hgap : Closed gap) (h : Trails gap') :
    Gap (gap ++ gap') [] := by
  refine hgap.gap_append ?_
  cases h with
  | nil => exact .nil
  | gap h => exact h.1.gap []
  | @line front inside h hinside =>
    have hline : Gap ('/' :: '/' :: (inside ++ [])) [] := .line hinside (by simp) .nil
    rw [List.append_nil] at hline
    exact h.1.gap_append hline

/-- No gap goes on into a spelling. -/
theorem splitGap_of_spells {kind : TokenKind} {chars rest : List Char} {value : Option Scalar}
    (h : Spells kind chars value) (hrest : ∀ c ∈ rest.head?, isBlank c) :
    splitGap (chars ++ rest) = ([], chars ++ rest) := by
  obtain ⟨c, tail, rfl, -⟩ := scanLexeme_of_spells h hrest
  rw [List.cons_append]
  refine splitGap_of_lexeme h.not_isBlank ?_
  rintro rfl d hd
  rw [h.of_slash] at hd
  have hblank := hrest d hd
  constructor <;> rintro rfl <;> exact absurd hblank (by decide)

end Scan

namespace Cursor

open Scan

/-! ## Reading one token after the other -/

/-- A gap and what is a lexeme behind it are read as one token. -/
theorem next_of_lexeme {gap text rest : List Char} {c : Char} {l : Lexeme} (hgap : Closed gap)
    (hfront : splitGap (c :: text) = ([], c :: text)) (hscan : scanLexeme c text = .ok (l, rest))
    (pos : Pos) :
    (Cursor.mk pos (gap ++ c :: text)).next =
      .ok (⟨l.kind, String.ofList l.chars, pos.after gap, l.value⟩,
        some ⟨(pos.after gap).after l.chars, rest⟩) := by
  simp only [next, splitGap_of_gap (hgap.gap _) hfront, hscan]

/-- A fault behind a gap is reported where the gap ends. -/
theorem next_of_fault {gap text : List Char} {c : Char} {fault : LexFault} (hgap : Closed gap)
    (hfront : splitGap (c :: text) = ([], c :: text)) (hscan : scanLexeme c text = .error fault)
    (pos : Pos) :
    (Cursor.mk pos (gap ++ c :: text)).next = .error ⟨fault, pos.after gap⟩ := by
  simp only [next, splitGap_of_gap (hgap.gap _) hfront, hscan]

/-- A gap and a spelling in front of a blank are read as one token. -/
theorem next_of_spells {kind : TokenKind} {gap chars rest : List Char} {value : Option Scalar}
    (hgap : Closed gap) (hspells : Spells kind chars value)
    (hrest : ∀ c ∈ rest.head?, isBlank c) (pos : Pos) :
    (Cursor.mk pos (gap ++ (chars ++ rest))).next =
      .ok (⟨kind, String.ofList chars, pos.after gap, value⟩,
        some ⟨(pos.after gap).after chars, rest⟩) := by
  obtain ⟨c, tail, rfl, hscan⟩ := scanLexeme_of_spells hspells hrest
  exact next_of_lexeme hgap (splitGap_of_spells hspells hrest) hscan pos

/-- A gap with nothing behind it is read as the end. -/
theorem next_of_gap {gap : List Char} (hgap : Gap gap []) (pos : Pos) :
    (Cursor.mk pos gap).next = .ok (.eof (pos.after gap), none) := by
  have hsplit := splitGap_of_gap hgap splitGap_nil
  rw [List.append_nil] at hsplit
  simp only [next, hsplit]

theorem tokens_of_end {c : Cursor} {t : Token} (h : c.next = .ok (t, none)) :
    c.tokens = ([t], none) := by
  rw [tokens]
  split <;> simp_all

theorem tokens_of_fault {c : Cursor} {e : LexError} (h : c.next = .error e) :
    c.tokens = ([], some e) := by
  rw [tokens]
  split <;> simp_all

theorem tokens_of_next {c c' : Cursor} {t : Token} (h : c.next = .ok (t, some c')) :
    c.tokens = (t :: c'.tokens.1, c'.tokens.2) := by
  rw [tokens]
  split <;> simp_all

/-- The tokens of a rendering, behind a gap, are its lexemes. -/
theorem tokens_of_renders {lexemes : List Lexeme} {text gap : List Char} (hgap : Closed gap)
    (h : Renders lexemes text) (pos : Pos) :
    ∃ tokens, (Cursor.mk pos (gap ++ text)).tokens = (tokens, none) ∧
      tokens.map Token.toLexeme = lexemes ++ [⟨.eof, [], none⟩] := by
  induction h generalizing gap pos with
  | nil htrails =>
    exact ⟨_, tokens_of_end (next_of_gap (htrails.gap_append hgap) pos), rfl⟩
  | @last l trailing hspells htrails =>
    have hfirst := tokens_of_next (next_of_spells hgap hspells htrails.isBlank_head pos)
    have hend := tokens_of_end
      (next_of_gap (htrails.gap_append .nil) ((pos.after gap).after l.chars))
    rw [List.nil_append] at hend
    rw [hend] at hfirst
    exact ⟨_, hfirst, by simp [Token.toLexeme, Token.eof]⟩
  | @cons l l' lexemes separator text hspells hsep _ ih =>
    have hfirst := tokens_of_next (next_of_spells hgap hspells (hsep.isBlank_head text) pos)
    obtain ⟨later, hlater, hmap⟩ := ih hsep.1 ((pos.after gap).after l.chars)
    rw [hlater] at hfirst
    exact ⟨_, hfirst, by simp [Token.toLexeme, hmap]⟩

end Cursor

open Scan in
/-- **Reading undoes rendering.**  Whatever gaps are chosen, the tokens read are the lexemes that
were written, and the end. -/
theorem tokenize_of_renders {lexemes : List Lexeme} {leading text : List Char}
    (hleading : Closed leading) (h : Renders lexemes text) :
    ∃ tokens, tokenize (String.ofList (leading ++ text)) = .ok tokens ∧
      tokens.map Token.toLexeme = lexemes ++ [⟨.eof, [], none⟩] := by
  obtain ⟨tokens, htokens, hmap⟩ := Cursor.tokens_of_renders hleading h Pos.start
  refine ⟨tokens, ?_, hmap⟩
  rw [tokenize, Cursor.ofText, String.toList_ofList, htokens]

open Scan in
/-- A quote inside a comment and a comment opening inside a text, with an unclosed comment at the
end. -/
theorem tokenize_of_renders_text :
    Closed ['/', '*', '"', '*', '/'] ∧
    Renders [⟨.letWord, ['l', 'e', 't'], none⟩, ⟨.string, ['"', '/', '/', '"'], some (.text "//")⟩]
      ['l', 'e', 't', ' ', '"', '/', '/', '"', '\n', '/', '/', '"'] ∧
    ∃ tokens, tokenize (String.ofList
        ['/', '*', '"', '*', '/', 'l', 'e', 't', ' ', '"', '/', '/', '"', '\n', '/', '/', '"']) =
          .ok tokens ∧
      tokens.map Token.toLexeme =
        [⟨.letWord, ['l', 'e', 't'], none⟩, ⟨.string, ['"', '/', '/', '"'], some (.text "//")⟩,
          ⟨.eof, [], none⟩] := by
  have hleading : Closed ['/', '*', '"', '*', '/'] := by
    have hinside : Unclosed ['"'] := unclosed_cons.mpr ⟨by decide, unclosed_nil⟩
    exact .block hinside .nil
  have hword : Spells .letWord ['l', 'e', 't'] none := .keyword (by decide)
  have htext : Spells .string ['"', '/', '/', '"'] (some (.text "//")) :=
    Spells.string (show '"' ∉ ['/', '/'] by decide)
  have hblank : ∀ {c}, isBlank c → Separates [c] :=
    fun {c} hc => ⟨.blank hc .nil, c, rfl, hc⟩
  have hrenders :
      Renders [⟨.letWord, ['l', 'e', 't'], none⟩,
          ⟨.string, ['"', '/', '/', '"'], some (.text "//")⟩]
        ['l', 'e', 't', ' ', '"', '/', '/', '"', '\n', '/', '/', '"'] :=
    .cons hword (hblank (show isBlank ' ' by decide))
      (.last htext (.line (hblank (show isBlank '\n' by decide)) (show '\n' ∉ ['"'] by decide)))
  have hread := tokenize_of_renders hleading hrenders
  simp only [List.cons_append, List.nil_append] at hread
  exact ⟨hleading, hrenders, hread⟩

end Octet
