import Octet.Proofs.Tree.Following

/-!
# Reading again and again

A reader may be asked for a program any number of times, whatever came of it before
(`Reader.after`).  `call_after` says what each of these calls does: it comes to an end, it moves the
reader on but not past the next end token, and the depth tells how many calls have failed for want
of room.

All of it is about one call of a reader that has some tokens ahead.  Such a call leaves some of them
over (`Reader.Has.parse_moves`), so the reader has these ahead, and the next call is of the same
kind (`Reader.Has.has_after`).
-/

namespace Octet

open Grammar

namespace Reader

/-- Whether a call fails for want of room. -/
def refuses (r : Reader) : Bool :=
  match r.parse.1 with
  | .ok _ => false
  | .error e => e.fault = .tooDeep

/-- The reader after so many calls. -/
def after (r : Reader) : Nat → Reader
  | 0 => r
  | n + 1 => (r.after n).parse.2

variable {r : Reader} {room : Nat} {tokens : List Token}

/-! ## One call -/

/-- A call moves the reader on, to the end if it succeeds, and its depth grows by one if there was
no room. -/
theorem Has.parse_moves (h : r.Has room tokens) :
    ∃ rest, rest <:+ tokens ∧
      r.parse.2 = { r.leaving rest with depth := r.depth + r.refuses.toNat } ∧
      ∀ p, r.parse.1 = .ok p → rest = [] := by
  have hleaves := (Descent.items_on h).leaves
  obtain rfl := h.room
  obtain rfl := h.ahead_eq
  rw [refuses, parse_eq_settle]
  cases hprogram : program (maxNesting - r.depth) r.ahead with
  | ok items => exact ⟨[], List.nil_suffix, rfl, fun _ _ => rfl⟩
  | error failure =>
    rw [hprogram] at hleaves
    refine ⟨failure.rest, hleaves, ?_, nofun⟩
    simp only [Except.map, settle]
    split <;> simp [*]

/-- Behind a call the reader has what the call left over, which is nothing if it succeeded. -/
theorem Has.has_parse (h : r.Has room tokens) :
    ∃ room' rest, r.parse.2.Has room' rest ∧ r.parse.2.tokens = r.tokens ∧
      ∀ p, r.parse.1 = .ok p → rest = [] := by
  obtain ⟨rest, hrest, hparse, hend⟩ := h.parse_moves
  have hleaving := h.leaving hrest
  rw [hparse]
  exact ⟨_, rest, ⟨rfl, hleaving.ends, hleaving.inner⟩, rfl, hend⟩

theorem Has.current_lt (h : r.Has room tokens) : r.current < r.tokens.length := by
  obtain ⟨t, hnext, -⟩ := h.exists_next
  exact (List.getElem?_eq_some_iff.1 hnext).1

/-- No call gets past an end token. -/
theorem Has.current_parse_le (h : r.Has room tokens) {i : Nat} {t : Token} (hi : r.current ≤ i)
    (ht : r.tokens[i]? = some t) (hend : t.kind = .eof) : r.parse.2.current ≤ i := by
  obtain ⟨rest, -, hparse, -⟩ := h.parse_moves
  rw [hparse]
  change r.current + (r.ahead.length - rest.length) ≤ i
  obtain ⟨last, behind, hcut, -⟩ := h.ends
  by_contra hbehind
  have hlt : i - r.current < tokens.length := by
    rw [h.ahead_eq] at hbehind
    omega
  have hmem : t ∈ tokens := by
    have : r.tokens[r.current + (i - r.current)]? = some t := by rwa [Nat.add_sub_cancel' hi]
    rw [← List.getElem?_drop, hcut, List.getElem?_append_left hlt] at this
    exact List.mem_of_getElem? this
  exact h.inner t hmem hend

/-- In front of an end token there is nothing to read. -/
theorem Has.parse_nil (h : r.Has room []) : r.parse = (.ok ⟨[]⟩, r) := by
  rw [Reader.parse, h.ahead_eq, program]
  rfl

/-! ## Any number of calls -/

theorem Has.has_after (h : r.Has room tokens) (n : Nat) :
    ∃ room' rest, (r.after n).Has room' rest ∧ (r.after n).tokens = r.tokens := by
  induction n with
  | zero => exact ⟨room, tokens, h, rfl⟩
  | succ n ih =>
    obtain ⟨room', rest, hn, htokens⟩ := ih
    obtain ⟨room'', rest', hnext, htokens', -⟩ := hn.has_parse
    exact ⟨room'', rest', hnext, htokens'.trans htokens⟩

/-- The depth tells how many calls have failed for want of room. -/
theorem Has.depth_after (h : r.Has room tokens) (n : Nat) :
    (r.after n).depth = r.depth + (List.range n).countP fun k => (r.after k).refuses := by
  induction n with
  | zero => rfl
  | succ n ih =>
    obtain ⟨room', rest, hn, -⟩ := h.has_after n
    obtain ⟨_, -, hparse, -⟩ := hn.parse_moves
    rw [List.range_succ, List.countP_append, List.countP_singleton, ← Nat.add_assoc, ← ih]
    change (r.after n).parse.2.depth = _
    rw [hparse]
    cases (r.after n).refuses <;> rfl

/-- Behind the last token every call yields the empty program. -/
theorem Has.after_nil (h : r.Has room []) (n : Nat) : r.after n = r := by
  induction n with
  | zero => rfl
  | succ n ih =>
    change (r.after n).parse.2 = r
    rw [ih, h.parse_nil]

end Reader

open Reader in
/-- **Every call of a reader comes to an end, and leaves a reader that can be called again.**  For
any tokens and any number of calls, the next one

* comes to an end, as the descent that does it has its outcome with enough fuel, and finds a token
  wherever it looks for the next one;
* keeps the tokens, does not move back, and stops in front of one of the tokens, at the latest in
  front of the first end token;
* if it succeeds, stops in front of an end token, and from then on every call yields the empty
  program and changes nothing.

The depth of the reader is the number of calls that failed for want of room. -/
theorem call_after (tokens : List Token) (n : Nat) :
    let r := (Reader.ofTokens tokens).after n
    Descent.Ends Descent.parse r r.parse ∧
      r.parse.2.tokens = r.tokens ∧
      r.current ≤ r.parse.2.current ∧
      r.parse.2.current < r.tokens.length ∧
      (∀ i t, r.current ≤ i → r.tokens[i]? = some t → t.kind = .eof → r.parse.2.current ≤ i) ∧
      (∀ p, r.parse.1 = .ok p →
        (∃ t, r.tokens[r.parse.2.current]? = some t ∧ t.kind = .eof) ∧
          ∀ m, (r.parse.2.after m).parse = (.ok ⟨[]⟩, r.parse.2)) ∧
      r.depth = (List.range n).countP fun k => ((Reader.ofTokens tokens).after k).refuses := by
  obtain ⟨hfinal, hcurrent, hdepth⟩ := ofTokens_final tokens
  have hfresh := has_ahead hfinal (by omega : (ofTokens tokens).current ≤ _)
  obtain ⟨room, ahead, hr, -⟩ := hfresh.has_after n
  intro r
  obtain ⟨room', rest, hr', htokens, hend⟩ := hr.has_parse
  refine ⟨Descent.parse_ends hr, htokens, ?_, ?_, fun i t => hr.current_parse_le, ?_, ?_⟩
  · obtain ⟨rest, -, hparse, -⟩ := hr.parse_moves
    rw [hparse]
    exact Nat.le_add_right ..
  · rw [← htokens]
    exact hr'.current_lt
  · intro p hp
    obtain rfl := hend p hp
    constructor
    · rw [← htokens]
      exact hr'.exists_next
    · intro m
      rw [hr'.after_nil]
      exact hr'.parse_nil
  · rw [hfresh.depth_after, hdepth, Nat.zero_add]

end Octet
