import Octet.Proofs.Tree.Completion
import Octet.Proofs.Tree.Nesting

/-!
# A fault is found at the first token that cannot be right

When a reader refuses some tokens, though not for their nesting, it stands in front of the token
that the diagnostic is about.

* The tokens in front of this one are the beginning of a program (`Stuck.Items.completes`), as long
  as one more level may be opened.
* Together with this token they are not, whatever follows (`Stuck.Items.local`).

So the diagnostic names the first token that no program can have there.
-/

namespace Octet

open Grammar

/-- What is read up to the first end token. -/
theorem ofTokens_eq_ok_iff {tokens : List Token} {p : Program} :
    Program.ofTokens tokens = .ok p ↔
      program maxNesting (tokens.takeWhile (·.kind != .eof)) = .ok p.items := by
  rw [Program.ofTokens, Reader.parse, Reader.ahead_ofTokens, (Reader.ofTokens_final tokens).2.2,
    Nat.sub_zero]
  cases program maxNesting (tokens.takeWhile (·.kind != .eof)) with
  | ok items =>
    constructor
    · rintro ⟨⟩
      rfl
    · rintro ⟨⟩
      rfl
  | error failure =>
    constructor
    · intro h
      cases h
    · intro h
      cases h

section

variable {tokens : List Token} (hends : ∀ t ∈ tokens, t.kind ≠ .eof)
include hends

theorem takeWhile_append_of_ends (more : List Token) :
    (tokens ++ more).takeWhile (·.kind != .eof) = tokens ++ more.takeWhile (·.kind != .eof) :=
  List.takeWhile_append_of_pos fun t ht => by simpa using hends t ht

theorem takeWhile_of_ends : tokens.takeWhile (·.kind != .eof) = tokens := by
  simpa using takeWhile_append_of_ends hends []

/-- A reader of tokens without an end token puts one behind them. -/
theorem Reader.tokens_ofTokens_of_ends :
    (Reader.ofTokens tokens).tokens = tokens ++ [.eof (Reader.endOf tokens)] := by
  rw [Reader.ofTokens]
  cases hlast : tokens.getLast? with
  | none =>
    obtain rfl := List.getLast?_eq_none_iff.1 hlast
    rfl
  | some t =>
    have hkind : t.kind ≠ .eof := hends t (List.mem_of_getLast? hlast)
    simp only [if_neg hkind]
    rfl

/-- What a fresh reader of tokens without an end token finds wrong, and where it stops. -/
theorem Reader.parse_ofTokens_eq_error {e : ParseError} {r : Reader}
    (h : (Reader.ofTokens tokens).parse = (.error e, r)) :
    ∃ rest, program maxNesting tokens = .error ⟨e.fault, rest⟩ ∧
      r.current = tokens.length - rest.length ∧
        r.tokens = tokens ++ [.eof (Reader.endOf tokens)] ∧
          e.found = r.tokens.getD r.current r.final := by
  rw [Reader.parse, Reader.ahead_ofTokens, takeWhile_of_ends hends,
    (Reader.ofTokens_final tokens).2.2, (Reader.ofTokens_final tokens).2.1, Nat.sub_zero,
    Nat.zero_add] at h
  split at h
  · cases h
  · rename_i failure hprogram
    obtain ⟨fault, rest⟩ := failure
    cases h
    exact ⟨rest, hprogram, Nat.zero_add _, Reader.tokens_ofTokens_of_ends hends, rfl⟩

/-- **A fault is found at the first token that cannot be right.**  It is the token that the reader
stands at afterwards.  Some tokens complete those in front of it to a program, if one more level may
be opened there; and nothing completes them once the token is added. -/
theorem parse_error_first {e : ParseError} {r : Reader}
    (h : (Reader.ofTokens tokens).parse = (.error e, r)) (hfault : e.fault ≠ .tooDeep) :
    r.tokens[r.current]? = some e.found ∧
      (∃ d, Stuck.Items maxNesting e.fault d tokens (tokens.drop r.current)) ∧
      (∀ d, Stuck.Items maxNesting e.fault d tokens (tokens.drop r.current) →
        d.levels < maxNesting →
          ∃ cs, (∀ t ∈ cs, t.kind ≠ .eof) ∧
            ∃ p, Program.ofTokens (tokens.take r.current ++ cs) = .ok p) ∧
      (r.current < tokens.length →
        ∀ cs p, Program.ofTokens (tokens.take (r.current + 1) ++ cs) ≠ .ok p) := by
  obtain ⟨rest, hprogram, hcurrent, htokens, hfound⟩ := Reader.parse_ofTokens_eq_error hends h
  obtain ⟨d, hd⟩ := program_eq_error_iff.1 hprogram
  obtain ⟨front, heq, hlocal⟩ := Stuck.Items.local maxNesting hd hfault
  have hfront : r.current = front.length := by
    rw [hcurrent, heq, List.length_append]
    omega
  have hdrop : tokens.drop r.current = rest := by rw [hfront, heq, List.drop_left]
  have htake : tokens.take r.current = front := by rw [hfront, heq, List.take_left]
  have hendsFront : ∀ t ∈ front, t.kind ≠ .eof := fun t ht =>
    hends t (heq ▸ List.mem_append_left rest ht)
  rw [hdrop, htake]
  refine ⟨?_, ⟨d, hd⟩, fun d hd hroom => ?_, fun hlt cs p hok => ?_⟩
  · have hlt : r.current < r.tokens.length := by
      rw [htokens, hfront, heq]
      simp
    rw [hfound, List.getD_eq_getElem?_getD, List.getElem?_eq_getElem hlt, Option.getD_some]
  · obtain ⟨front', cs, heq', hcs, hwhole⟩ := Stuck.Items.completes maxNesting hd hfault hroom
    obtain rfl : front = front' := List.append_cancel_right (heq.symm.trans heq')
    obtain ⟨-, items, -, hitems⟩ := hwhole [] rfl
    refine ⟨cs, hcs, ⟨items⟩, ofTokens_eq_ok_iff.2 ?_⟩
    rw [takeWhile_append_of_ends hendsFront, takeWhile_of_ends hcs]
    rw [List.append_nil] at hitems
    exact program_iff.2 hitems
  · cases rest with
    | nil =>
      rw [hfront, heq] at hlt
      simp at hlt
    | cons t rest =>
      have hstuck := hlocal (t :: cs.takeWhile (·.kind != .eof)) (.intro ..)
      have heq' : tokens = (front ++ [t]) ++ rest := by simpa using heq
      have hendsTaken : ∀ t' ∈ front ++ [t], t'.kind ≠ .eof := fun t' ht' =>
        hends t' (heq' ▸ List.mem_append_left rest ht')
      have hlength : r.current + 1 = (front ++ [t]).length := by simp [hfront]
      have htaken : tokens.take (r.current + 1) = front ++ [t] := by
        rw [hlength, heq', List.take_left]
      rw [htaken, ofTokens_eq_ok_iff, takeWhile_append_of_ends hendsTaken, List.append_assoc,
        List.singleton_append, program_eq_error_iff.2 ⟨d, hstuck⟩] at hok
      cases hok

end

/-- The tokens of `loop`, an opening brace, `x`, `=` and a closing brace. -/
def unassigned : List Token :=
  [⟨.loopWord, "loop", ⟨1, 1⟩, none⟩, ⟨.leftBrace, "\x7b", ⟨1, 6⟩, none⟩,
    ⟨.identifier, "x", ⟨1, 8⟩, none⟩, ⟨.equal, "=", ⟨1, 10⟩, none⟩,
    ⟨.rightBrace, "\x7d", ⟨1, 12⟩, none⟩]

/-- The first four of them can be completed, the fifth cannot be what follows. -/
theorem parse_error_first_unassigned :
    (∃ cs, (∀ t ∈ cs, t.kind ≠ .eof) ∧
        ∃ p, Program.ofTokens (unassigned.take 4 ++ cs) = .ok p) ∧
      ∀ cs p, Program.ofTokens (unassigned.take 5 ++ cs) ≠ .ok p := by
  have hends : ∀ t ∈ unassigned, t.kind ≠ .eof := by decide
  have hfails : (match (Reader.ofTokens unassigned).parse with
      | (.error e, r) => some (e.fault, r.current)
      | (.ok _, _) => none) = some (.expected .expression, 4) := by
    decide +kernel
  obtain ⟨e, r, h⟩ : ∃ e r, (Reader.ofTokens unassigned).parse = (.error e, r) := by
    cases hresult : (Reader.ofTokens unassigned).parse with
    | mk result r =>
      cases result with
      | ok p =>
        rw [hresult] at hfails
        cases hfails
      | error e => exact ⟨e, r, rfl⟩
  rw [h] at hfails
  obtain ⟨hfault, hcurrent⟩ := Prod.mk.inj (Option.some.inj hfails)
  obtain ⟨-, ⟨d, hd⟩, hcomplete, himpossible⟩ :=
    parse_error_first hends h (by rw [hfault]; decide)
  -- there is one brace among the tokens, so no more than one construct is open
  have hopen : d.constructs + openings (unassigned.drop r.current) ≤ 0 + openings unassigned :=
    (Stuck.Items.nests maxNesting hd).1
  have hone : openings unassigned = 1 := by decide
  have hroom : d.levels < maxNesting := by
    rw [Nesting.levels_eq]
    have : maxNesting = 48 := rfl
    split <;> omega
  have hfour := hcomplete d hd hroom
  rw [hcurrent] at hfour
  rw [hcurrent] at himpossible
  exact ⟨hfour, himpossible (by decide)⟩

end Octet
