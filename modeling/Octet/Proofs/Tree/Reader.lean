import Octet.Tree.Reader
import Mathlib.Data.List.TakeWhile

/-!
# What a reader looks at

A reader looks at the tokens up to the next end token (`Reader.ahead`).  For a reader that was
just given some tokens these are the tokens up to the first end token, whether or not there is one
(`Reader.ahead_ofTokens`).

A fault is found somewhere among them, or at the end token behind them (`Reader.found_mem`).

A reader that moves on among these tokens has the rest of them ahead (`Reader.Has.leaving`).
-/

namespace Octet

/-- What is taken from the front of a list ends in front of a last element that does not fit. -/
theorem takeWhile_concat {α : Type} {p : α → Bool} {x : α} (hx : p x = false) (l : List α) :
    (l ++ [x]).takeWhile p = l.takeWhile p := by
  induction l with
  | nil => simp [hx]
  | cons y l ih =>
    rw [List.cons_append, List.takeWhile_cons, List.takeWhile_cons, ih]

namespace Reader

variable {tokens : List Token}

/-- A fresh reader of tokens that end in an end token has no others. -/
theorem tokens_ofTokens {t : Token} (hlast : tokens.getLast? = some t) (hkind : t.kind = .eof) :
    (ofTokens tokens).tokens = tokens := by
  obtain ⟨body, rfl⟩ := List.getLast?_eq_some_iff.1 hlast
  rw [ofTokens, hlast]
  simp only [if_pos hkind]
  rw [Reader.tokens, List.dropLast_concat]

/-- A fresh reader ends in an end token and stands in front of its first token. -/
theorem ofTokens_final (tokens : List Token) :
    (ofTokens tokens).final.kind = .eof ∧ (ofTokens tokens).current = 0 ∧
      (ofTokens tokens).depth = 0 := by
  rw [ofTokens]
  split
  · split
    · exact ⟨‹_›, rfl, rfl⟩
    · exact ⟨rfl, rfl, rfl⟩
  · exact ⟨rfl, rfl, rfl⟩

/-- A fresh reader looks at the tokens up to the first end token. -/
theorem ahead_ofTokens (tokens : List Token) :
    (ofTokens tokens).ahead = tokens.takeWhile (·.kind != .eof) := by
  rw [ahead, (ofTokens_final tokens).2.1, List.drop_zero]
  cases hlast : tokens.getLast? with
  | none =>
    obtain rfl := List.getLast?_eq_none_iff.1 hlast
    rfl
  | some t =>
    by_cases hkind : t.kind = .eof
    · rw [tokens_ofTokens hlast hkind]
    · rw [ofTokens, hlast]
      simp only [if_neg hkind]
      exact takeWhile_concat rfl tokens

/-- The tokens up to the next end token do not reach behind the last token. -/
theorem length_ahead {r : Reader} (hfinal : r.final.kind = .eof)
    (hcurrent : r.current ≤ r.body.length) : r.current + r.ahead.length ≤ r.body.length := by
  have hahead : r.ahead = (r.body.drop r.current).takeWhile (·.kind != .eof) := by
    rw [ahead, Reader.tokens, List.drop_append_of_le_length hcurrent, takeWhile_concat]
    rw [hfinal]
    rfl
  have hle := (List.takeWhile_prefix (fun t : Token => t.kind != .eof)
    (l := r.body.drop r.current)).length_le
  rw [List.length_drop, ← hahead] at hle
  omega

/-- A fault is found at one of the tokens. -/
theorem found_mem {r r' : Reader} {e : ParseError} (hfinal : r.final.kind = .eof)
    (hcurrent : r.current ≤ r.body.length) (h : r.parse = (.error e, r')) :
    e.found ∈ r.tokens := by
  have hlength := length_ahead hfinal hcurrent
  rw [parse] at h
  split at h
  · cases h
  · rename_i failure _
    cases h
    have hlt : r.current + (r.ahead.length - failure.rest.length) < r.tokens.length := by
      rw [Reader.tokens, List.length_append, List.length_singleton]
      omega
    rw [List.getD_eq_getElem?_getD, List.getElem?_eq_getElem hlt]
    exact List.getElem_mem hlt

/-! ## Moving on -/

section

variable {r : Reader} {room : Nat} {t : Token} {rest rest' tokens : List Token}

/-- The reader, moved on to where only these of the tokens ahead are left. -/
def leaving (r : Reader) (rest : List Token) : Reader :=
  { r with current := r.current + (r.ahead.length - rest.length) }

theorem leaving_ahead (r : Reader) : r.leaving r.ahead = r := by
  rw [leaving, Nat.sub_self, Nat.add_zero]

/-- The reader has these tokens in front of the next end token, and room for so many openings. -/
structure Has (r : Reader) (room : Nat) (tokens : List Token) : Prop where
  room : maxNesting - r.depth = room
  ends : ∃ last behind, r.tokens.drop r.current = tokens ++ last :: behind ∧ last.kind = .eof
  inner : ∀ t ∈ tokens, t.kind ≠ .eof

/-- A reader that stands in front of one of its tokens has the tokens ahead. -/
theorem has_ahead (hfinal : r.final.kind = .eof) (hcurrent : r.current ≤ r.body.length) :
    r.Has (maxNesting - r.depth) r.ahead where
  room := rfl
  ends := by
    have hmem : r.final ∈ r.tokens.drop r.current := by
      rw [Reader.tokens, List.drop_append_of_le_length hcurrent]
      simp
    cases hbehind : (r.tokens.drop r.current).dropWhile (·.kind != .eof) with
    | nil =>
      have := List.dropWhile_eq_nil_iff.1 hbehind r.final hmem
      simp [hfinal] at this
    | cons last behind =>
      refine ⟨last, behind, ?_, ?_⟩
      · rw [← hbehind]
        exact List.takeWhile_append_dropWhile.symm
      · have := List.head_dropWhile_not (p := fun t : Token => t.kind != .eof)
          (hbehind ▸ List.cons_ne_nil _ _)
        simpa [hbehind] using this
  inner := by
    intro t ht
    simpa using List.mem_takeWhile_imp ht

theorem Has.ahead_eq (h : r.Has room tokens) : r.ahead = tokens := by
  obtain ⟨last, behind, hcut, hlast⟩ := h.ends
  rw [ahead, hcut, List.takeWhile_append_of_pos (by simpa using h.inner), List.takeWhile_cons]
  simp [hlast]

theorem Has.leaving (h : r.Has room tokens) (hrest : rest <:+ tokens) :
    (r.leaving rest).Has room rest := by
  obtain ⟨last, behind, hcut, hlast⟩ := h.ends
  obtain ⟨front, rfl⟩ := hrest
  refine ⟨h.room, ⟨last, behind, ?_, hlast⟩, fun t ht => h.inner t (List.mem_append_right _ ht)⟩
  rw [Reader.leaving, h.ahead_eq, List.length_append, Nat.add_sub_cancel]
  change r.tokens.drop _ = _
  rw [← List.drop_drop, hcut, List.append_assoc, List.drop_left]

/-- Moving on twice is moving on once. -/
theorem Has.leaving_leaving (h : r.Has room tokens) (hrest : rest <:+ tokens)
    (hrest' : rest' <:+ rest) : (r.leaving rest).leaving rest' = r.leaving rest' := by
  have hle := hrest.length_le
  have hle' := hrest'.length_le
  have hcurrent : r.current + (tokens.length - rest.length) + (rest.length - rest'.length) =
      r.current + (tokens.length - rest'.length) := by
    omega
  rw [Reader.leaving, (h.leaving hrest).ahead_eq]
  simp only [Reader.leaving, h.ahead_eq, hcurrent]

/-- One level deeper there is room for one opening less. -/
theorem Has.deeper (h : r.Has room tokens) :
    Has { r with depth := r.depth + 1 } (room - 1) tokens :=
  ⟨h.room ▸ Nat.sub_add_eq .., h.ends, h.inner⟩

/-- Moving on by one token. -/
theorem Has.leaving_tail (h : r.Has room (t :: rest)) :
    r.leaving rest = { r with current := r.current + 1 } := by
  rw [Reader.leaving, h.ahead_eq, List.length_cons, Nat.add_sub_cancel_left]

theorem Has.next (h : r.Has room (t :: tokens)) : r.tokens[r.current]? = some t := by
  obtain ⟨last, behind, hcut, -⟩ := h.ends
  rw [← Nat.add_zero r.current, ← List.getElem?_drop, hcut]
  rfl

/-- The kind of the first of some tokens that stand in front of an end token. -/
def nextKind : List Token → TokenKind
  | [] => .eof
  | t :: _ => t.kind

@[simp] theorem nextKind_nil : nextKind [] = .eof := rfl

@[simp] theorem nextKind_cons (t : Token) (tokens : List Token) :
    nextKind (t :: tokens) = t.kind := rfl

/-- There is always a next token. -/
theorem Has.exists_next (h : r.Has room tokens) :
    ∃ t, r.tokens[r.current]? = some t ∧ t.kind = nextKind tokens := by
  cases tokens with
  | cons t rest => exact ⟨t, h.next, rfl⟩
  | nil =>
    obtain ⟨last, behind, hcut, hlast⟩ := h.ends
    refine ⟨last, ?_, hlast⟩
    rw [← Nat.add_zero r.current, ← List.getElem?_drop, hcut]
    rfl

end

end Reader
end Octet
