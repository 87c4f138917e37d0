import Octet.Proofs.Tree.Reader
import Octet.Proofs.Tree.Descent

/-!
# Where a descent ends

A rule of the grammar is given some tokens and yields what it read and the tokens it left over; a
descent is run by a reader, which is somewhere else afterwards.  `Reader.settle` is the dictionary
between both: a reader does what a rule says (`Descent.Outcome`) if it moves on to the tokens that
the rule leaves over, and remembers one opening more if the rule found no room for it.

A reader starts where it has some tokens ahead and some room (`Reader.Has`), so each single step
finds the token that it looks for, and takes one at most.  Outcomes are put together from these
steps: two readings one after the other (`Outcome.bind`), a choice by the next token
(`Outcome.accept_pos` and those beside it), and a reading one level deeper (`follows_nested`), where
the room of the rule and the depth of the reader have to agree.
-/

namespace Octet

open Grammar
open Reader (nextKind)

/-! ## What a reader does by a rule -/

/-- The tokens that a rule leaves over. -/
def Grammar.leftOver {α : Type} {n : Nat} : Except Failure (Parsed α n) → List Token
  | .ok p => p.rest
  | .error failure => failure.rest

namespace Reader

variable {α : Type} {n : Nat}

/-- What a reader does that reads by a rule: it stops where the rule does, and the opening that
found no room stays open. -/
def settle (r : Reader) : Except Failure (Parsed α n) → Except ParseError α × Reader
  | .ok p => (.ok p.value, r.leaving p.rest)
  | .error failure =>
    let stopped := r.leaving failure.rest
    (.error ⟨failure.fault, r.tokens.getD stopped.current r.final⟩,
      { stopped with depth := if failure.fault = .tooDeep then r.depth + 1 else r.depth })

/-- Moving on first makes no difference to where a rule ends. -/
theorem Has.settle_leaving {r : Reader} {room : Nat} {rest tokens : List Token}
    {x : Except Failure (Parsed α n)} (hr : r.Has room tokens) (hrest : rest <:+ tokens)
    (hx : leftOver x <:+ rest) : (r.leaving rest).settle x = r.settle x := by
  cases x with
  | ok p => exact congrArg _ (hr.leaving_leaving hrest hx)
  | error failure =>
    replace hx : failure.rest <:+ rest := hx
    rw [settle, settle, hr.leaving_leaving hrest hx]
    rfl

/-- One level deeper and back.  An opening without room leaves the depth one more on every level, so
it does here. -/
theorem settle_deeper (r : Reader) (x : Except Failure (Parsed α n)) :
    let inside := settle { r with depth := r.depth + 1 } x
    (inside.1, { inside.2 with depth := inside.2.depth - 1 }) = r.settle x := by
  cases x with
  | ok p => rfl
  | error failure =>
    simp only [settle]
    split <;> rfl

end Reader

namespace Descent

variable {α β : Type} {m n room : Nat} {d : Nat → Descent α} {f : Nat → α → Descent β}
  {r r' : Reader} {x : Except Failure (Parsed α m)} {tokens : List Token} {a : α}

/-! ## Single runs -/

section

variable {d : Descent α} {f : α → Descent β}

theorem on_bind_ok (h : d.on r = some (.ok a, r')) : (d >>= f).on r = (f a).on r' := by
  change (d.on r >>= _) = _
  rw [h]
  rfl

theorem on_bind_error {e : ParseError} (h : d.on r = some (.error e, r')) :
    (d >>= f).on r = some (.error e, r') := by
  change (d.on r >>= _) = _
  rw [h]
  rfl

theorem on_get : (get : Descent Reader).on r = some (.ok r, r) := rfl

theorem on_modify {g : Reader → Reader} :
    (modify g : Descent Unit).on r = some (.ok (), g r) := rfl

theorem on_liftM {t : Option α} : (liftM t : Descent α).on r = t.map fun a => (.ok a, r) := by
  cases t <;> rfl

theorem on_closing :
    (closing d).on r = (d.on r).map fun (outcome, r') =>
      (outcome, { r' with depth := r'.depth - 1 }) := by
  change (d.on r >>= _) = _
  cases d.on r <;> rfl

end

/-! ## With enough fuel -/

namespace Ends

variable {outcome : Except ParseError α × Reader}

/-- What needs no fuel. -/
theorem of_on {d : Descent α} (h : d.on r = some outcome) : Ends (fun _ => d) r outcome :=
  ⟨0, fun _ _ => h⟩

/-- A call takes some fuel. -/
theorem succ (h : Ends (fun fuel => d (fuel + 1)) r outcome) : Ends d r outcome := by
  obtain ⟨enough, h⟩ := h
  refine ⟨enough + 1, fun fuel hfuel => ?_⟩
  have hpos : fuel - 1 + 1 = fuel := Nat.sub_add_cancel (Nat.le_trans (Nat.le_add_left ..) hfuel)
  rw [← hpos]
  exact h (fuel - 1) (Nat.le_sub_one_of_lt hfuel)

/-- Behind a call there is fuel enough as well. -/
theorem unroll (h : Ends d r outcome) : Ends (fun fuel => d (fuel + 1)) r outcome := by
  obtain ⟨enough, h⟩ := h
  exact ⟨enough, fun fuel hfuel => h (fuel + 1) (Nat.le_succ_of_le hfuel)⟩

/-- What is enough for each of two descents is enough for both. -/
theorem both {e : Nat → Descent β} {outcome' : Except ParseError β × Reader}
    (h : Ends d r outcome) (h' : Ends e r' outcome') :
    ∃ enough, ∀ fuel ≥ enough, (d fuel).on r = some outcome ∧ (e fuel).on r' = some outcome' := by
  obtain ⟨enough, h⟩ := h
  obtain ⟨enough', h'⟩ := h'
  exact ⟨max enough enough', fun fuel hfuel => ⟨h fuel (Nat.le_trans (Nat.le_max_left ..) hfuel),
    h' fuel (Nat.le_trans (Nat.le_max_right ..) hfuel)⟩⟩

theorem bind_ok {outcome : Except ParseError β × Reader} (h : Ends d r (.ok a, r'))
    (hf : Ends (fun fuel => f fuel a) r' outcome) :
    Ends (fun fuel => d fuel >>= f fuel) r outcome := by
  obtain ⟨enough, hboth⟩ := h.both hf
  refine ⟨enough, fun fuel hfuel => ?_⟩
  obtain ⟨hon, hon'⟩ := hboth fuel hfuel
  rw [on_bind_ok hon, hon']

theorem bind_error {e : ParseError} (h : Ends d r (.error e, r')) :
    Ends (fun fuel => d fuel >>= f fuel) r (.error e, r') := by
  obtain ⟨enough, h⟩ := h
  exact ⟨enough, fun fuel hfuel => on_bind_error (h fuel hfuel)⟩

/-- What comes behind a descent that has ended. -/
theorem of_bind {outcome : Except ParseError β × Reader} (h : Ends d r (.ok a, r'))
    (hbind : Ends (fun fuel => d fuel >>= f fuel) r outcome) :
    Ends (fun fuel => f fuel a) r' outcome := by
  obtain ⟨enough, hboth⟩ := h.both hbind
  refine ⟨enough, fun fuel hfuel => ?_⟩
  obtain ⟨hon, hon'⟩ := hboth fuel hfuel
  rw [← on_bind_ok hon, hon']

theorem closing (h : Ends d r outcome) :
    Ends (fun fuel => closing (d fuel)) r
      (outcome.1, { outcome.2 with depth := outcome.2.depth - 1 }) := by
  obtain ⟨enough, h⟩ := h
  refine ⟨enough, fun fuel hfuel => ?_⟩
  rw [on_closing, h fuel hfuel]
  rfl

end Ends

/-- A descent does what a rule says. -/
structure Outcome (d : Nat → Descent α) (r : Reader) (x : Except Failure (Parsed α n)) : Prop where
  leaves : leftOver x <:+ r.ahead
  ends : Ends d r (r.settle x)

/-- A descent follows a rule wherever there is so much room. -/
def Follows (d : Nat → Descent α) (room : Nat) {bound : List Token → Nat}
    (rule : (tokens : List Token) → Except Failure (Parsed α (bound tokens))) : Prop :=
  ∀ ⦃r : Reader⦄ ⦃tokens : List Token⦄, r.Has room tokens → Outcome d r (rule tokens)

namespace Outcome

theorem succ (h : Outcome (fun fuel => d (fuel + 1)) r x) : Outcome d r x :=
  ⟨h.leaves, h.ends.succ⟩

theorem unroll (h : Outcome d r x) : Outcome (fun fuel => d (fuel + 1)) r x :=
  ⟨h.leaves, h.ends.unroll⟩

/-- Seen from where the reader stood before it moved on. -/
theorem moved {rest : List Token} (h : Outcome d (r.leaving rest) x) (hr : r.Has room tokens)
    (hrest : rest <:+ tokens) : leftOver x <:+ r.ahead ∧ Ends d (r.leaving rest) (r.settle x) := by
  obtain ⟨hleaves, hends⟩ := h
  rw [(hr.leaving hrest).ahead_eq] at hleaves
  rw [hr.settle_leaving hrest hleaves] at hends
  exact ⟨hr.ahead_eq ▸ hleaves.trans hrest, hends⟩

/-- Two readings one after the other. -/
theorem bind {g : Parsed α m → Except Failure (Parsed β n)} (hr : r.Has room tokens)
    (h : Outcome d r x)
    (hf : ∀ p {r' : Reader}, r'.Has room p.rest → Outcome (fun fuel => f fuel p.value) r' (g p)) :
    Outcome (fun fuel => d fuel >>= f fuel) r (x >>= g) := by
  obtain ⟨hleaves, hends⟩ := h
  cases x with
  | error failure => exact ⟨hleaves, hends.bind_error⟩
  | ok p =>
    replace hleaves : p.rest <:+ tokens := hr.ahead_eq ▸ hleaves
    obtain ⟨hleaves', hends'⟩ := (hf p (hr.leaving hleaves)).moved hr hleaves
    exact ⟨hleaves', hends.bind_ok hends'⟩

/-- Nothing more is read. -/
theorem pure (hr : r.Has room tokens) {hlt : tokens.length < n} :
    Outcome (fun _ => pure a) r (.ok ⟨a, tokens, hlt⟩) := by
  obtain rfl := hr.ahead_eq
  refine ⟨List.suffix_rfl, .of_on ?_⟩
  rw [Reader.settle, Reader.leaving_ahead]
  rfl

/-- The same, with another bound for what is left. -/
theorem ok {g : Parsed α m → Except Failure (Parsed α n)} (h : Outcome d r x)
    (hg : ∀ p, ∃ hlt, g p = .ok ⟨p.value, p.rest, hlt⟩) : Outcome d r (x >>= g) := by
  obtain ⟨hleaves, hends⟩ := h
  cases x with
  | error failure => exact ⟨hleaves, hends⟩
  | ok p =>
    obtain ⟨hlt, hp⟩ := hg p
    change Outcome d r (g p)
    rw [hp]
    exact ⟨hleaves, hends⟩

section

variable {e : Nat → Descent β} {f : Nat → β → Descent α} {b : β}

/-- First something that takes no token. -/
theorem silent (h : Ends e r (.ok b, r)) (hf : Outcome (fun fuel => f fuel b) r x) :
    Outcome (fun fuel => e fuel >>= f fuel) r x :=
  ⟨hf.leaves, h.bind_ok hf.ends⟩

/-- First something that takes one token. -/
theorem taken {t : Token} {rest : List Token} (hr : r.Has room (t :: rest))
    (h : Ends e r (.ok b, r.leaving rest))
    (hf : Outcome (fun fuel => f fuel b) (r.leaving rest) x) :
    Outcome (fun fuel => e fuel >>= f fuel) r x := by
  obtain ⟨hleaves, hends⟩ := hf.moved hr (List.suffix_cons t rest)
  exact ⟨hleaves, h.bind_ok hends⟩

end

end Outcome

/-! ## Single tokens -/

section

variable {kind : TokenKind} {kinds : List TokenKind} {t : Token} {rest : List Token}

theorem peek_on (hr : r.Has room tokens) :
    ∃ t, peek.on r = some (.ok t, r) ∧ t.kind = nextKind tokens ∧
      r.tokens[r.current]? = some t := by
  obtain ⟨t, hnext, hkind⟩ := hr.exists_next
  refine ⟨t, ?_, hkind, hnext⟩
  rw [peek, on_bind_ok on_get, on_liftM, hnext]
  rfl

theorem peek_cons_on (hr : r.Has room (t :: rest)) : peek.on r = some (.ok t, r) := by
  rw [peek, on_bind_ok on_get, on_liftM, hr.next]
  rfl

theorem check_on (hr : r.Has room tokens) :
    (check kind).on r = some (.ok (nextKind tokens == kind), r) := by
  obtain ⟨t, hon, hkind, -⟩ := peek_on hr
  rw [← hkind]
  exact on_bind_ok hon

theorem checkNext_on (hr : r.Has room (t :: rest)) :
    (checkNext kind).on r = some (.ok (nextKind rest == kind), r) := by
  obtain ⟨u, hnext, hkind⟩ := (hr.leaving (List.suffix_cons t rest)).exists_next
  rw [hr.leaving_tail] at hnext
  rw [checkNext, on_bind_ok on_get, ← hkind]
  change some (Except.ok (r.tokens[r.current + 1]?.any _), r) = _
  rw [show r.tokens[r.current + 1]? = some u from hnext]
  rfl

theorem previous_on (hr : r.Has room (t :: rest)) :
    previous.on (r.leaving rest) = some (.ok t, r.leaving rest) := by
  rw [previous, on_bind_ok on_get, hr.leaving_tail]
  change (liftM r.tokens[r.current]? : Descent Token).on _ = _
  rw [on_liftM, hr.next]
  rfl

theorem advance_on (hr : r.Has room (t :: rest)) :
    advance.on r = some (.ok t, r.leaving rest) := by
  have hkind : ¬ (nextKind (t :: rest) == TokenKind.eof) = true := by
    simpa using hr.inner t List.mem_cons_self
  rw [advance, on_bind_ok (check_on hr), if_neg hkind, on_bind_ok on_modify, ← hr.leaving_tail]
  exact previous_on hr

theorem accept_on (hr : r.Has room (t :: rest)) (ht : t.kind ∈ kinds) :
    (accept kinds).on r = some (.ok true, r.leaving rest) := by
  rw [accept, on_bind_ok (peek_cons_on hr), if_pos ht]
  exact on_bind_ok (advance_on hr)

theorem accept_on_of_notMem (hr : r.Has room tokens) (hkind : nextKind tokens ∉ kinds) :
    (accept kinds).on r = some (.ok false, r) := by
  obtain ⟨t, hon, ht, -⟩ := peek_on hr
  rw [accept, on_bind_ok hon, if_neg (ht ▸ hkind)]
  rfl

end

/-! ## Separators -/

section

variable {t : Token} {rest : List Token}

/-- Skipping separators goes on behind a separator, -/
theorem skipSeparators_ends_cons {outcome : Except ParseError Unit × Reader}
    (hr : r.Has room (t :: rest)) (ht : t.kind = .semicolon)
    (h : Ends skipSeparators (r.leaving rest) outcome) : Ends skipSeparators r outcome :=
  .succ (Ends.bind_ok (.of_on (accept_on hr (by simp [ht]))) h)

/-- and stops in front of anything else. -/
theorem skipSeparators_ends (hr : r.Has room tokens) (hkind : nextKind tokens ≠ .semicolon) :
    Ends skipSeparators r (.ok (), r) :=
  .succ (Ends.bind_ok (.of_on (accept_on_of_notMem hr (by simpa using hkind))) (.of_on rfl))

theorem exists_skipSeparators_ends (hr : r.Has room tokens) :
    ∃ r', Ends skipSeparators r (.ok (), r') := by
  induction tokens generalizing r with
  | nil => exact ⟨r, skipSeparators_ends hr nofun⟩
  | cons t rest ih =>
    by_cases hkind : t.kind = .semicolon
    · obtain ⟨r', hends⟩ := ih (hr.leaving (List.suffix_cons t rest))
      exact ⟨r', skipSeparators_ends_cons hr hkind hends⟩
    · exact ⟨r, skipSeparators_ends hr hkind⟩

end

/-! ## What follows a single token -/

namespace Outcome

variable {d' : Nat → Descent α} {kind : TokenKind} {kinds : List TokenKind} {t : Token}
  {rest : List Token}

theorem accept_pos (hr : r.Has room (t :: rest)) (ht : t.kind ∈ kinds)
    (h : ∀ {r' : Reader}, r'.Has room rest → Outcome d r' x) :
    Outcome (fun fuel => do if ← accept kinds then d fuel else d' fuel) r x :=
  taken hr (.of_on (accept_on hr ht)) (h (hr.leaving (List.suffix_cons t rest)))

/-- The token that was accepted is looked at again. -/
theorem accept_previous {f : Nat → Token → Descent α} (hr : r.Has room (t :: rest))
    (ht : t.kind ∈ kinds)
    (h : ∀ {r' : Reader}, r'.Has room rest → Outcome (fun fuel => f fuel t) r' x) :
    Outcome (fun fuel => do if ← accept kinds then f fuel (← previous) else d' fuel) r x :=
  taken hr (.of_on (accept_on hr ht))
    (silent (.of_on (previous_on hr)) (h (hr.leaving (List.suffix_cons t rest))))

theorem accept_neg (hr : r.Has room tokens) (hkind : nextKind tokens ∉ kinds)
    (h : Outcome d r x) :
    Outcome (fun fuel => do if ← accept kinds then d' fuel else d fuel) r x :=
  silent (.of_on (accept_on_of_notMem hr hkind)) h

theorem check_pos (hr : r.Has room tokens) (hkind : nextKind tokens = kind) (h : Outcome d r x) :
    Outcome (fun fuel => do if ← check kind then d fuel else d' fuel) r x :=
  silent (.of_on (check_on hr)) (by simpa [hkind] using h)

theorem check_neg (hr : r.Has room tokens) (hkind : nextKind tokens ≠ kind) (h : Outcome d r x) :
    Outcome (fun fuel => do if ← check kind then d' fuel else d fuel) r x :=
  silent (.of_on (check_on hr)) (by simpa [hkind] using h)

theorem advance {f : Nat → Token → Descent α} (hr : r.Has room (t :: rest))
    (h : ∀ {r' : Reader}, r'.Has room rest → Outcome (fun fuel => f fuel t) r' x) :
    Outcome (fun fuel => do f fuel (← advance)) r x :=
  taken hr (.of_on (advance_on hr)) (h (hr.leaving (List.suffix_cons t rest)))

/-- A separator is skipped. -/
theorem separator (hr : r.Has room (t :: rest)) (ht : t.kind = .semicolon)
    (h : Outcome (fun fuel => do skipSeparators fuel; d fuel) (r.leaving rest) x) :
    Outcome (fun fuel => do skipSeparators fuel; d fuel) r x := by
  have hrest : rest <:+ t :: rest := List.suffix_cons t rest
  obtain ⟨hleaves, hends⟩ := h.moved hr hrest
  obtain ⟨r', hskips⟩ := exists_skipSeparators_ends (hr.leaving hrest)
  exact ⟨hleaves, (skipSeparators_ends_cons hr ht hskips).bind_ok (hskips.of_bind hends)⟩

theorem no_separator (hr : r.Has room tokens) (hkind : nextKind tokens ≠ .semicolon)
    (h : Outcome d r x) : Outcome (fun fuel => do skipSeparators fuel; d fuel) r x :=
  ⟨h.leaves, (skipSeparators_ends hr hkind).bind_ok h.ends⟩

theorem fail {fault : ParseFault} (hr : r.Has room tokens) (hfault : fault ≠ .tooDeep) :
    Outcome (fun _ => fail fault) r (.error ⟨fault, tokens⟩ : Except Failure (Parsed α n)) := by
  obtain ⟨t, hon, -, ht⟩ := peek_on hr
  obtain rfl := hr.ahead_eq
  refine ⟨List.suffix_rfl, .of_on ?_⟩
  rw [Descent.fail, on_bind_ok hon, Reader.settle, Reader.leaving_ahead, if_neg hfault,
    List.getD_eq_getElem?_getD, ht]
  rfl

end Outcome

theorem follows_consume {kind : TokenKind} {what : Expectation} (hkind : kind ≠ .eof) :
    Follows (fun _ => consume kind what) room (expect kind what) := by
  intro r tokens hr
  cases tokens with
  | nil => exact Outcome.check_neg hr hkind.symm (Outcome.fail hr nofun)
  | cons t rest =>
    rw [expect]
    split
    · rename_i ht
      refine Outcome.check_pos hr ht ?_
      rw [← bind_pure advance]
      exact Outcome.advance hr fun hr' => Outcome.pure hr'
    · rename_i ht
      exact Outcome.check_neg hr ht (Outcome.fail hr nofun)

/-! ## Levels of nesting -/

section

variable {bound : List Token → Nat}
  {rule : (tokens : List Token) → Except Failure (Parsed α (bound tokens))}

/-- What is read one level deeper has one opening less to go.  Whatever comes of it, the depth is
the same afterwards, unless there was no room inside. -/
theorem follows_nested (h : Follows d room rule) :
    Follows (fun fuel => nested (d fuel)) (room + 1) rule := by
  intro r tokens hr
  have hroom : ¬ maxNesting < r.depth + 1 := by
    have := hr.room
    omega
  have henter : enter.on r = some (.ok (), { r with depth := r.depth + 1 }) := by
    rw [enter, on_bind_ok on_modify, on_bind_ok on_get, if_neg hroom]
    rfl
  obtain ⟨hleaves, hends⟩ := h hr.deeper
  refine ⟨hleaves, ?_⟩
  rw [← r.settle_deeper]
  exact Ends.bind_ok (.of_on henter) hends.closing

/-- Without room nothing is read.  The opening is counted all the same, and nothing closes it. -/
theorem follows_nested_tooDeep :
    @Follows α (fun fuel => nested (d fuel)) 0 bound fun tokens => .error ⟨.tooDeep, tokens⟩ := by
  intro r tokens hr
  obtain ⟨t, hon, -, ht⟩ := peek_on hr.deeper
  have hroom : maxNesting < r.depth + 1 := by
    have := hr.room
    omega
  have henter : enter.on r = some (.error ⟨.tooDeep, t⟩, { r with depth := r.depth + 1 }) := by
    rw [enter, on_bind_ok on_modify, on_bind_ok on_get, if_pos hroom, fail, on_bind_ok hon]
    rfl
  obtain rfl := hr.ahead_eq
  refine ⟨List.suffix_rfl, ?_⟩
  rw [Reader.settle, Reader.leaving_ahead, List.getD_eq_getElem?_getD,
    show r.tokens[r.current]? = some t from ht]
  exact (Ends.of_on henter).bind_error

end

end Descent
end Octet
