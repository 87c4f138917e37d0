import Octet.Proofs.Token.Lossless
import Octet.Proofs.Token.Rendering

/-!
# Where scanning fails

A text that cannot be scanned is cut in two by the fault.  The part in front of it can be scanned,
and its tokens are those that were read before the fault.  The part behind begins with something
that is no token, and `Blames` says what this is for each fault, without the scanner.

The fault is found behind some tokens and a gap, and each of these was read with the whole text
behind it.  That they are read in the same way if the text ends where the fault is needs a reason,
as the scanner looks at what follows a token.

* A gap is one in front of the end as well (`Gap.of_head`).
* A lexeme is the longest spelling in front of the text, so it is the longest one in front of a part
  of the text that contains it.  The scanner cuts off this one if it cuts off any, and what it
  blames in front of the part would be to blame in front of the whole text too
  (`scanLexeme_of_append`).
-/

namespace Octet
namespace Scan

/-! ## What is to blame -/

/-- What is wrong with the front of a text where no token begins. -/
inductive Blames : LexFault → List Char → Prop
  /-- A quote without another one behind it. -/
  | unterminatedString {rest : List Char} :
      '"' ∉ rest → Blames .unterminatedString ('"' :: rest)
  /-- The opening of a comment without a closing behind it. -/
  | unterminatedComment {rest : List Char} :
      ¬ ['*', '/'] <:+: rest → Blames .unterminatedComment ('/' :: '*' :: rest)
  /-- A single `&` or `|`. -/
  | unpaired {c : Char} {rest : List Char} :
      c = '&' ∨ c = '|' → rest.head? ≠ some c → Blames (.unpaired c) (c :: rest)
  /-- More digits than are read, with neither another digit nor a fraction behind them. -/
  | tooManyDigits {digits rest : List Char} :
      4300 < digits.length → (∀ d ∈ digits, d.isDigit) →
      (∀ d ∈ rest.head?, d.isDigit = false) →
      (∀ d tail, rest = '.' :: d :: tail → d.isDigit = false) →
      Blames (.tooManyDigits digits.length) (digits ++ rest)
  /-- A character with which no token and no gap begins. -/
  | unexpected {c : Char} {rest : List Char} :
      (∀ kind tail value, ¬ Spells kind (c :: tail) value) →
      (∀ gap behind, ¬ Gap (c :: gap) behind) → Blames (.unexpected c) (c :: rest)

/-- The end of a text is not to blame. -/
theorem Blames.exists_cons {fault : LexFault} {text : List Char} (h : Blames fault text) :
    ∃ c rest, text = c :: rest := by
  cases h with
  | unterminatedString _ => exact ⟨_, _, rfl⟩
  | unterminatedComment _ => exact ⟨_, _, rfl⟩
  | unpaired _ _ => exact ⟨_, _, rfl⟩
  | @tooManyDigits digits rest hlength _ _ _ =>
    cases digits with
    | nil => cases hlength
    | cons d digits => exact ⟨d, digits ++ rest, rfl⟩
  | unexpected _ _ => exact ⟨_, _, rfl⟩

/-- A comment that is not closed has no closing. -/
theorem not_infix_of_splitComment {text : List Char} (h : splitComment text = none) :
    ¬ ['*', '/'] <:+: text := by
  fun_induction splitComment text with
  | case1 rest => cases h
  | case2 c rest hopen ih =>
    rw [List.infix_cons_iff, not_or]
    refine ⟨?_, ih (Option.map_eq_none_iff.1 h)⟩
    rintro ⟨tail, htail⟩
    obtain ⟨hstar, hrest⟩ := List.cons.inj htail
    exact hopen tail hstar.symm hrest.symm
  | case3 => simp

theorem blames_of_scanString {text : List Char} {fault : LexFault}
    (h : scanString text = .error fault) : Blames fault ('"' :: text) := by
  simp only [scanString] at h
  split at h
  · cases h
  · rename_i hdrop
    cases h
    refine .unterminatedString fun hmem => ?_
    simpa using List.dropWhile_eq_nil_iff.1 hdrop _ hmem

theorem blames_of_scanNumber {text : List Char} {fault : LexFault}
    (h : scanNumber text = .error fault) : Blames fault text := by
  have hinteger : ∀ {tail : List Char},
      scanNumber.integer (text.takeWhile Char.isDigit) tail = .error fault →
      (∀ d tail, text.dropWhile Char.isDigit = '.' :: d :: tail → d.isDigit = false) →
        Blames fault text := by
    intro tail hint hpoint
    unfold scanNumber.integer at hint
    split at hint
    · rename_i hlength
      cases hint
      have hblames := Blames.tooManyDigits hlength isDigit_of_mem_takeWhile
        (fun d hd => ?_) hpoint
      · rwa [List.takeWhile_append_dropWhile] at hblames
      · have hhead := List.head?_dropWhile_not Char.isDigit text
        rw [hd] at hhead
        simpa using hhead
    · cases hint
  simp only [scanNumber] at h
  split at h
  · rename_i d tail hdrop
    split at h
    · cases h
    · rename_i hd
      refine hinteger h fun d' tail' hdrop' => ?_
      rw [hdrop] at hdrop'
      cases hdrop'
      exact Bool.eq_false_iff.mpr hd
  · rename_i hdrop
    exact hinteger h fun d tail hd => absurd hd (hdrop d tail)

/-- **Where the scanner fails there is something to blame.** -/
theorem blames_of_scanLexeme {c : Char} {text : List Char} {fault : LexFault}
    (hgap : splitGap (c :: text) = ([], c :: text)) (h : scanLexeme c text = .error fault) :
    Blames fault (c :: text) := by
  simp only [scanLexeme] at h
  split at h
  · rename_i hcomment
    cases h
    rw [Bool.and_eq_true, beq_iff_eq, beq_iff_eq] at hcomment
    obtain ⟨rfl, hstar⟩ := hcomment
    obtain ⟨rest, rfl⟩ := List.head?_eq_some_iff.1 hstar
    rw [splitGap] at hgap
    split at hgap
    · cases hgap
    · exact .unterminatedComment (not_infix_of_splitComment ‹_›)
  split at h
  · cases h
  rename_i hsingle
  split at h
  · split at h <;> cases h
  rename_i hequal
  split at h
  · rename_i kind hdouble
    split at h
    · cases h
    · rename_i hnext
      cases h
      refine .unpaired ?_ (by simpa using hnext)
      unfold doubled? at hdouble
      split at hdouble
      · exact .inl rfl
      · exact .inr rfl
      · cases hdouble
  rename_i hdouble
  split at h
  · rename_i hquote
    obtain rfl := beq_iff_eq.1 hquote
    exact blames_of_scanString h
  rename_i hquote
  split at h
  · exact blames_of_scanNumber h
  rename_i hdigit
  split at h
  · cases h
  rename_i hword
  cases h
  refine .unexpected (fun kind tail value hspells => ?_) fun gap behind hc => ?_
  · rcases hspells.cases_cons with hmark | ⟨h, -⟩ | ⟨rfl, -⟩ | ⟨h, -⟩
    · rcases mem_marks_cons.1 hmark with ⟨-, h⟩ | ⟨-, _, h⟩ | ⟨-, _, h⟩ | ⟨-, h⟩
      · cases hsingle.symm.trans h
      · cases hequal.symm.trans h
      · cases hequal.symm.trans h
      · cases hdouble.symm.trans h
    · exact hword h
    · exact hquote rfl
    · exact hdigit h
  · cases hc with
    | blank hblank _ =>
      rw [splitGap_blank hblank] at hgap
      cases hgap
    | line _ _ _ => cases hsingle
    | block _ _ => cases hsingle

/-! ## A text that ends earlier -/

/-- A gap in front of a text is one in front of the end, and of any text that begins alike. -/
theorem Gap.of_head {gap rest rest' : List Char} (h : Gap gap rest)
    (hhead : ∀ c ∈ rest'.head?, c ∈ rest.head?) : Gap gap rest' := by
  induction h with
  | nil => exact .nil
  | blank hc _ ih => exact .blank hc (ih hhead)
  | @line inside gap rest hinside hend _ ih =>
    refine .line hinside (fun c hc => hend c ?_) (ih hhead)
    cases gap with
    | nil => exact hhead c hc
    | cons d gap => exact hc
  | block hinside _ ih => exact .block hinside (ih hhead)

section

variable {c : Char} {text rest back : List Char} {l : Lexeme}
  (hgap : splitGap (c :: (text ++ back)) = ([], c :: (text ++ back)))
  (h : scanLexeme c (text ++ back) = .ok (l, rest ++ back))
include hgap h

/-- Where a lexeme begins, no gap does. -/
theorem splitGap_of_append : splitGap (c :: text) = ([], c :: text) := by
  have hspells := spells_of_scanLexeme h
  obtain ⟨d, tail, hchars⟩ := List.exists_cons_of_ne_nil (chars_ne_nil_of_scanLexeme h)
  have happend := append_scanLexeme h
  rw [hchars] at hspells happend
  obtain ⟨rfl, -⟩ := List.cons.inj happend
  refine splitGap_of_lexeme hspells.not_isBlank ?_
  rintro rfl d hd
  obtain ⟨text', rfl⟩ := List.head?_eq_some_iff.1 hd
  constructor
  · rintro rfl
    rw [List.cons_append, splitGap] at hgap
    cases hgap
  · rintro rfl
    cases h

omit hgap h in
/-- Two ways to cut a text behind its digits are the same. -/
theorem eq_of_digits {digits digits' behind behind' : List Char}
    (hdigits : ∀ d ∈ digits, d.isDigit) (hdigits' : ∀ d ∈ digits', d.isDigit)
    (hbehind : ∀ d ∈ behind.head?, d.isDigit = false)
    (hbehind' : ∀ d ∈ behind'.head?, d.isDigit = false)
    (heq : digits ++ behind = digits' ++ behind') : digits = digits' ∧ behind = behind' := by
  have htake := congrArg (List.takeWhile Char.isDigit) heq
  have hdrop := congrArg (List.dropWhile Char.isDigit) heq
  rw [takeWhile_of_boundary hdigits hbehind, takeWhile_of_boundary hdigits' hbehind'] at htake
  rw [dropWhile_of_boundary hdigits hbehind, dropWhile_of_boundary hdigits' hbehind'] at hdrop
  exact ⟨htake, hdrop⟩

/-- Nothing is to blame in front of a text that contains the lexeme. -/
theorem not_blames_of_append (htext : l.chars ++ rest = c :: text) (fault : LexFault) :
    ¬ Blames fault (c :: text) := by
  intro hblames
  have hspells := spells_of_scanLexeme h
  obtain ⟨d, tail, hchars⟩ := List.exists_cons_of_ne_nil (chars_ne_nil_of_scanLexeme h)
  rw [hchars] at hspells
  obtain ⟨rfl, htail⟩ := List.cons.inj (hchars ▸ htext)
  generalize hfront : d :: text = front at hblames
  cases hblames with
  | unterminatedString hquote =>
    obtain ⟨rfl, rfl⟩ := List.cons.inj hfront
    obtain ⟨inside, -, rfl⟩ := hspells.of_quote
    rw [← htail] at hquote
    simp at hquote
  | unterminatedComment _ =>
    obtain ⟨rfl, rfl⟩ := List.cons.inj hfront
    cases h
  | unpaired hmark hnext =>
    obtain ⟨rfl, rfl⟩ := List.cons.inj hfront
    have hboth : (d :: tail, l.kind) ∈ marks := by
      rcases hmark with rfl | rfl
      · exact hspells.of_mark (show (['&', '&'], .andAnd) ∈ marks by simp [marks])
      · exact hspells.of_mark (show (['|', '|'], .orOr) ∈ marks by simp [marks])
    rcases mem_marks_cons.1 hboth with ⟨-, h⟩ | ⟨-, _, h⟩ | ⟨-, _, h⟩ | ⟨rfl, -⟩
    · rcases hmark with rfl | rfl <;> cases h
    · rcases hmark with rfl | rfl <;> cases h
    · rcases hmark with rfl | rfl <;> cases h
    · exact hnext (by rw [← htail]; rfl)
  | @tooManyDigits digits behind hlength hdigits hend hpoint =>
    have hd : d.isDigit := by
      cases digits with
      | nil => cases hlength
      | cons e digits =>
        obtain ⟨rfl, -⟩ := List.cons.inj hfront
        exact hdigits d (List.mem_cons_self ..)
    rw [scanLexeme_of_isDigit hd, ← List.cons_append, hfront] at h
    rcases scanNumber_cases h with ⟨-, hshort, -⟩ | ⟨e, tail', -, he, rfl⟩
    · have hle := length_le_takeWhile hdigits (List.prefix_append digits (behind ++ back))
      rw [← List.append_assoc] at hle
      omega
    · -- the digits in front of the point are all there are, and the point is behind them
      rw [hfront, List.append_assoc] at htext
      obtain ⟨-, hbehind⟩ := eq_of_digits isDigit_of_mem_takeWhile hdigits (by simp) hend htext
      rw [List.cons_append, List.takeWhile_cons_of_pos he, List.cons_append] at hbehind
      exact absurd ((hpoint e _ hbehind.symm).symm.trans he) (by decide)
  | unexpected hnone _ =>
    obtain ⟨rfl, rfl⟩ := List.cons.inj hfront
    exact hnone _ _ _ hspells

/-- **A lexeme does not depend on what follows it**, as far as that is cut off. -/
theorem scanLexeme_of_append (htext : l.chars ++ rest = c :: text) :
    scanLexeme c text = .ok (l, rest) := by
  cases hscan : scanLexeme c text with
  | error fault =>
    have hblames := blames_of_scanLexeme (splitGap_of_append hgap h) hscan
    exact absurd hblames (not_blames_of_append hgap h htext fault)
  | ok cut =>
    obtain ⟨l', rest'⟩ := cut
    have htext' := append_scanLexeme hscan
    have hspells := spells_of_scanLexeme h
    have hspells' := spells_of_scanLexeme hscan
    -- each of the two is a spelling in front of the other's text, so neither is longer
    have hle : l.chars.length ≤ l'.chars.length :=
      length_le_of_scanLexeme hscan hspells ⟨rest, htext⟩
    have hle' : l'.chars.length ≤ l.chars.length := by
      refine length_le_of_scanLexeme h hspells' ⟨rest' ++ back, ?_⟩
      rw [← List.append_assoc, htext', List.cons_append]
    obtain ⟨hchars, rfl⟩ := List.append_inj (htext.trans htext'.symm) (Nat.le_antisymm hle hle')
    rw [← hchars] at hspells'
    obtain ⟨hkind, hvalue⟩ := hspells.unique hspells'
    obtain ⟨kind, chars, value⟩ := l
    obtain ⟨kind', chars', value'⟩ := l'
    cases hkind
    cases hchars
    cases hvalue
    rfl

end

end Scan

namespace Cursor

open Scan

/-- **A token does not depend on what follows it.**  It is read in the same way if the text ends
earlier, somewhere behind it. -/
theorem next_of_append {pos pos' : Pos} {text rest back : List Char} {t : Token}
    (h : (Cursor.mk pos (text ++ back)).next = .ok (t, some ⟨pos', rest ++ back⟩)) :
    (Cursor.mk pos text).next = .ok (t, some ⟨pos', rest⟩) := by
  have hgap := gap_splitGap (text ++ back)
  have hnone := splitGap_splitGap (text ++ back)
  have hsplit := append_splitGap (text ++ back)
  simp only [next] at h
  split at h
  · cases h
  · rename_i first behind hfirst
    split at h
    · cases h
    · rename_i l rest' hscan
      simp only [Except.ok.injEq, Prod.mk.injEq, Option.some.injEq, Cursor.mk.injEq] at h
      obtain ⟨rfl, rfl, rfl⟩ := h
      have hlexeme := append_scanLexeme hscan
      generalize (splitGap (text ++ back)).1 = gap at *
      rw [hfirst] at hgap hnone hsplit
      -- the lexeme and the rest are what stands behind the gap if the text ends earlier
      obtain ⟨d, text', hd⟩ : ∃ d text', l.chars ++ rest = d :: text' := by
        obtain ⟨d, tail, hchars⟩ := List.exists_cons_of_ne_nil (chars_ne_nil_of_scanLexeme hscan)
        exact ⟨d, tail ++ rest, by rw [hchars, List.cons_append]⟩
      rw [← List.append_assoc, hd, List.cons_append] at hlexeme
      obtain ⟨rfl, rfl⟩ := List.cons.inj hlexeme
      obtain rfl : gap ++ d :: text' = text := by
        rw [← List.cons_append, ← List.append_assoc] at hsplit
        exact List.append_cancel_right hsplit
      have hgap' : Gap gap (d :: text') := hgap.of_head fun c hc => hc
      have hnone' : splitGap (d :: text') = ([], d :: text') := splitGap_of_append hnone hscan
      simp only [next, splitGap_of_gap hgap' hnone', scanLexeme_of_append hnone hscan hd]

/-- A fault is found behind a gap, in front of what is to blame. -/
theorem blames_of_next {c : Cursor} {e : LexError} (h : c.next = .error e) :
    ∃ gap back, c.text = gap ++ back ∧ Gap gap [] ∧ e.pos = c.pos.after gap ∧
      Blames e.fault back := by
  have hgap := gap_splitGap c.text
  have hnone := splitGap_splitGap c.text
  have htext := append_splitGap c.text
  simp only [next] at h
  split at h
  · cases h
  · rename_i first rest hfirst
    split at h
    · rename_i fault hscan
      cases h
      rw [hfirst] at hnone hgap htext
      exact ⟨_, first :: rest, htext.symm, hgap.of_head (by simp), rfl,
        blames_of_scanLexeme hnone hscan⟩
    · cases h

/-- What a cursor reads in front of a fault, it reads if the text ends there. -/
theorem exists_tokens_of_fault {c : Cursor} {front : List Char} {tokens : List Token} {e : LexError}
    (hpos : c.pos = place front) (h : c.tokens = (tokens, some e)) :
    ∃ text back, c.text = text ++ back ∧ e.pos = place (front ++ text) ∧
      (Cursor.mk c.pos text).tokens = (tokens ++ [.eof e.pos], none) ∧ Blames e.fault back := by
  fun_induction Cursor.tokens c generalizing front tokens with
  | case1 c e' hnext =>
    cases h
    obtain ⟨gap, back, htext, hgap, he, hblames⟩ := blames_of_next hnext
    refine ⟨gap, back, htext, by rw [he, hpos, ← place_append], ?_, hblames⟩
    rw [he]
    exact tokens_of_end (next_of_gap hgap c.pos)
  | case2 c t hnext => cases h
  | case3 c t c' hnext _ later =>
    rename_i ih
    obtain ⟨rfl, hlater⟩ := Prod.mk.inj h
    rcases next_cases hnext with ⟨-, -, hbehind⟩ | ⟨gap, rest, htext, -, -, htpos, -, hbehind⟩
    · cases hbehind
    · obtain rfl := Option.some.inj hbehind
      have hplace : t.pos.after t.lexeme.toList = place (front ++ gap ++ t.lexeme.toList) := by
        rw [htpos, hpos, ← place_append, ← place_append]
      obtain ⟨text, back, hrest, he, htokens, hblames⟩ := ih hplace (Prod.ext rfl hlater)
      have hrest : rest = text ++ back := hrest
      refine ⟨gap ++ t.lexeme.toList ++ text, back, ?_, ?_, ?_, hblames⟩
      · rw [htext, hrest, ← List.append_assoc]
      · rw [he, ← List.append_assoc, ← List.append_assoc]
      · have hcursor : c = ⟨c.pos, gap ++ t.lexeme.toList ++ text ++ back⟩ := by
          rw [List.append_assoc, ← hrest, ← htext]
        rw [hcursor, hrest] at hnext
        rw [tokens_of_next (next_of_append hnext), htokens, List.cons_append]

end Cursor

open Scan

/-- **Scanning fails where something is to blame.**  The text is cut in two at the place of the
fault.  What was read before the fault are the tokens of the first part, with its end behind them,
and the second part begins with what is to blame. -/
theorem tokenize_fault {source : String} {e : LexError} (h : tokenize source = .error e) :
    ∃ front back tokens, source.toList = front ++ back ∧ e.pos = place front ∧
      (Cursor.ofText source).tokens = (tokens, some e) ∧
      tokenize (String.ofList front) = .ok (tokens ++ [.eof e.pos]) ∧ Blames e.fault back := by
  rw [tokenize] at h
  split at h
  · cases h
  · rename_i tokens e' htokens
    cases h
    have hstart : (Cursor.ofText source).pos = place [] := rfl
    obtain ⟨front, back, htext, hpos, hfront, hblames⟩ :=
      Cursor.exists_tokens_of_fault hstart htokens
    refine ⟨front, back, tokens, htext, hpos, htokens, ?_, hblames⟩
    have hcursor : Cursor.ofText (String.ofList front) = ⟨Pos.start, front⟩ := by
      rw [Cursor.ofText, String.toList_ofList]
    rw [tokenize, hcursor, show (Cursor.mk Pos.start front).tokens = _ from hfront]

/-- A text over two lines, a number, and a comment that is not closed by the star at the end. -/
def unclosedText : String := "\"a\nb\" 1/* *"

theorem tokenize_fault_comment :
    tokenize unclosedText = .error ⟨.unterminatedComment, ⟨2, 5⟩⟩ ∧
      ∃ front back tokens, unclosedText.toList = front ++ back ∧ ⟨2, 5⟩ = place front ∧
        (Cursor.ofText unclosedText).tokens = (tokens, some ⟨.unterminatedComment, ⟨2, 5⟩⟩) ∧
        tokenize (String.ofList front) = .ok (tokens ++ [.eof ⟨2, 5⟩]) ∧
        Blames .unterminatedComment back := by
  have hfault : (match tokenize unclosedText with
      | .error e => some e
      | .ok _ => none) = some ⟨.unterminatedComment, ⟨2, 5⟩⟩ := by
    decide +kernel
  have h : tokenize unclosedText = .error ⟨.unterminatedComment, ⟨2, 5⟩⟩ := by
    cases hread : tokenize unclosedText with
    | ok tokens =>
      rw [hread] at hfault
      cases hfault
    | error e =>
      rw [hread] at hfault
      rw [Option.some.inj hfault]
  exact ⟨h, tokenize_fault h⟩

end Octet
