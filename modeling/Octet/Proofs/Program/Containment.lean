import Octet.Source
import Octet.Proofs.Draft.Jumps
import Octet.Proofs.Machine.Invariant
import Octet.Proofs.Program.Safety
import Octet.Proofs.Token.Faults
import Octet.Proofs.Tree.Reader

/-!
# What can go wrong with a text

A text goes through four stages: it is scanned, read, laid out and run.  Each stage has its own
way to refuse, and this file says that none of them refuses for a reason of its own.

* A fault of scanning is at a character of the text.
* A fault of reading is at a token of the text, possibly at the end token.
* A fault of laying out is one of the program: some limit is exceeded, or it asks for something
  that there is not (`CompileFault.Warranted`).
* A failure of the machine is a trap of an instruction of the program, at its offset, and one that
  code may have which is in order.  Nobody has requested a stop.
-/

namespace Octet

open Code Machine

/-! ## Scanning -/

/-- The last token of a text is its end. -/
theorem Reads.getLast? {front text : List Char} {tokens : List Token}
    (h : Reads front text tokens) : ∃ t, tokens.getLast? = some t ∧ t.kind = .eof := by
  induction h with
  | eof _ => exact ⟨_, rfl, rfl⟩
  | token _ _ _ _ _ ih =>
    obtain ⟨t, ht, hkind⟩ := ih
    exact ⟨t, by rw [List.getLast?_cons, ht]; rfl, hkind⟩

/-! ## Stages -/

/-- What a fault of a text says about the text. -/
def SourceError.Contained (text : String) : SourceError → Prop
  | .lex e => ∃ front c back, text.toList = front ++ c :: back ∧ e.pos = place front
  | .parse e => ∃ tokens, tokenize text = .ok tokens ∧ e.found ∈ tokens
  | .compile e => e.fault.Warranted ∧ ∃ kind, e.fault.kind? = some kind ∧ kind ≠ .internal

/-- A text that cannot be scanned has a character to blame. -/
theorem contained_of_tokenize {text : String} {e : LexError} (h : tokenize text = .error e) :
    (SourceError.lex e).Contained text := by
  rw [tokenize] at h
  split at h
  · cases h
  · rename_i tokens e' htokens
    cases h
    have hstart : (Cursor.ofText text).pos = place [] := rfl
    obtain ⟨front, back, htext, hpos, -, hblames⟩ :=
      Cursor.exists_tokens_of_fault hstart htokens
    obtain ⟨c, rest, rfl⟩ := hblames.exists_cons
    exact ⟨front, c, rest, htext, hpos⟩

/-- Tokens that are no program have one of them to blame. -/
theorem contained_of_ofTokens {text : String} {tokens : List Token} {e : ParseError}
    (htext : tokenize text = .ok tokens) (h : Program.ofTokens tokens = .error e) :
    (SourceError.parse e).Contained text := by
  have hreads : Reads [] text.toList tokens := by
    rw [tokenize] at htext
    split at htext
    · rename_i htokens
      cases htext
      exact reads_of_tokens (c := Cursor.ofText text) rfl htokens
    · cases htext
  obtain ⟨t, hlast, hkind⟩ := hreads.getLast?
  obtain ⟨hfinal, hcurrent, -⟩ := Reader.ofTokens_final tokens
  have hfound := Reader.found_mem hfinal (by rw [hcurrent]; exact Nat.zero_le _) (Prod.ext h rfl)
  rw [Reader.tokens_ofTokens hlast hkind] at hfound
  exact ⟨tokens, htext, hfound⟩

/-- The first stage that refuses decides. -/
theorem compile_cases (text : String) :
    (∃ e, tokenize text = .error e ∧ Source.compile text = .error (.lex e)) ∨
    (∃ tokens e, tokenize text = .ok tokens ∧ Program.ofTokens tokens = .error e ∧
      Source.compile text = .error (.parse e)) ∨
    ∃ p : Program, Source.compile text = p.compile.mapError .compile := by
  cases htokens : tokenize text with
  | error e => exact .inl ⟨e, rfl, by rw [Source.compile, Source.parse, htokens]; rfl⟩
  | ok tokens =>
    have hparse : Source.parse text = (Program.ofTokens tokens).mapError .parse := by
      rw [Source.parse, htokens]
      rfl
    cases hprogram : Program.ofTokens tokens with
    | error e =>
      exact .inr (.inl ⟨tokens, e, rfl, hprogram, by rw [Source.compile, hparse, hprogram]; rfl⟩)
    | ok p => exact .inr (.inr ⟨p, by rw [Source.compile, hparse, hprogram]; rfl⟩)

/-- A text without an image has itself to blame. -/
theorem contained_of_compile {text : String} {e : SourceError}
    (h : Source.compile text = .error e) : e.Contained text := by
  rcases compile_cases text with
    ⟨e', htokens, hend⟩ | ⟨tokens, e', htokens, hprogram, hend⟩ | ⟨p, hend⟩
  · cases hend.symm.trans h
    exact contained_of_tokenize htokens
  · cases hend.symm.trans h
    exact contained_of_ofTokens htokens hprogram
  · cases hcompile : p.compile with
    | error e' =>
      rw [hcompile] at hend
      cases hend.symm.trans h
      have hwarranted : e'.fault.Warranted :=
        Draft.warranted_of_generate (p := p) (d := {}) (Prod.ext hcompile rfl)
      exact ⟨hwarranted, hwarranted.kind⟩
    | ok image =>
      rw [hcompile] at hend
      cases hend.symm.trans h

/-- The image of a text is one of a program. -/
theorem exists_program_of_compile {text : String} {image : Image}
    (h : Source.compile text = .ok image) :
    ∃ (p : Program) (d : Draft), (Draft.generate p).perform {} = (.ok image, d) := by
  rcases compile_cases text with ⟨e, -, hend⟩ | ⟨tokens, e, -, -, hend⟩ | ⟨p, hend⟩
  · cases hend.symm.trans h
  · cases hend.symm.trans h
  · cases hcompile : p.compile with
    | error e =>
      rw [hcompile] at hend
      cases hend.symm.trans h
    | ok image' =>
      rw [hcompile] at hend
      cases hend.symm.trans h
      exact ⟨p, _, Prod.ext hcompile rfl⟩

/-! ## Running -/

/-- A failure that is reported and that code in order may have is a trap of an instruction. -/
theorem exists_instr_of_reported {setup : Setup} {cause : Trap} {a : Nat}
    (h : cause.Reported setup a) (hcorrupt : ¬ cause.Corrupt) :
    ∃ i, fetch? setup.image.code a = some i ∧ i.MayFail setup cause := by
  cases h with
  | invalidOpcode _ _ => exact absurd trivial hcorrupt
  | truncated _ _ => exact absurd trivial hcorrupt
  | instruction hfetch hfail => exact ⟨_, hfetch, hfail⟩

/-- A run of a program on a fresh machine fails only in an instruction of the program, in a way
that code in order may fail. -/
theorem run_of_generate {p : Program} {d d' : Draft} {image : Image}
    (h : (Draft.generate p).perform d = (.ok image, d')) {budget : Option Int} {limit : Int}
    {e : MachineError} {s' : State}
    (hends : (Call.run budget).Ends ⟨image, limit⟩ {} (.error e) s') :
    ∃ cause a i, e = .trap cause a ∧ ¬ cause.Corrupt ∧ fetch? image.code a = some i ∧
      i.MayFail ⟨image, limit⟩ cause := by
  obtain ⟨listing, hlisting, -, hrefers⟩ := listing_of_generate h
  have hallows := allows_boundary hlisting hrefers
  have hcorrupt : ¬ e.Corrupt := (Call.Ends.sound d'.registers hallows
    (State.sound_start hallows.start) hends).2 e rfl (readable_boundary hlisting hrefers)
  have hreported : e.Reported ⟨image, limit⟩ {} :=
    (hends.reported (State.sound_start (allows_length image.code).start)).2 e rfl
  cases e with
  | stopped => cases hreported
  | trap cause a =>
    obtain ⟨i, hfetch, hfail⟩ := exists_instr_of_reported hreported hcorrupt
    exact ⟨cause, a, i, rfl, hcorrupt, hfetch, hfail⟩

/-- **Whatever a text is, it is refused for a fault of its own**, or it has an image.  A run of this
image, for some number of steps or until it halts, fails only as an instruction of it may. -/
theorem compile_contained (text : String) :
    (∀ e, Source.compile text = .error e → e.Contained text) ∧
    ∀ image, Source.compile text = .ok image → ∀ (budget : Option Int) (e : MachineError)
      (s' : State), (Call.run budget).Ends ⟨image, defaultMaxStack⟩ {} (.error e) s' →
      ∃ cause a i, e = .trap cause a ∧ ¬ cause.Corrupt ∧ fetch? image.code a = some i ∧
        i.MayFail ⟨image, defaultMaxStack⟩ cause := by
  refine ⟨fun e h => contained_of_compile h, fun image h budget e s' hends => ?_⟩
  obtain ⟨p, d, hgenerate⟩ := exists_program_of_compile h
  exact run_of_generate hgenerate hends

/-- The image of `print_int(7 / 0);`. -/
def divisionImage : Image :=
  ⟨[0x01, 0, 0, 0, 7, 0x01, 0, 0, 0, 0, 0x0f, 0xfe, 0], []⟩

/-- What a run of that image leaves behind. -/
def divisionState : State :=
  ((Machine.runFor BuiltinTable.standard 3).perform ⟨divisionImage, defaultMaxStack⟩ {}).2

theorem compile_contained_division :
    Source.compile "print_int(7 / 0);" = .ok divisionImage ∧
    (Call.run none).Ends ⟨divisionImage, defaultMaxStack⟩ {} (.error (.trap .divisionByZero 10))
      divisionState ∧
    (∃ cause a i, MachineError.trap .divisionByZero 10 = .trap cause a ∧ ¬ cause.Corrupt ∧
      fetch? divisionImage.code a = some i ∧
      i.MayFail ⟨divisionImage, defaultMaxStack⟩ cause) ∧
    ∃ e, Source.compile "x = 7;" = .error e ∧ e.Contained "x = 7;" := by
  have hcompile : Source.compile "print_int(7 / 0);" = .ok divisionImage := by
    have hsome : (Source.compile "print_int(7 / 0);").toOption = some divisionImage := by
      decide +kernel
    cases himage : Source.compile "print_int(7 / 0);" with
    | error e =>
      rw [himage] at hsome
      cases hsome
    | ok image =>
      rw [himage] at hsome
      cases hsome
      rfl
  have hends : (Call.run none).Ends ⟨divisionImage, defaultMaxStack⟩ {}
      (.error (.trap .divisionByZero 10)) divisionState :=
    .runToEnd (n := 3) (r := .error (.trap .divisionByZero 10)) rfl nofun
  refine ⟨hcompile, hends, (compile_contained _).2 _ hcompile none _ _ hends, ?_⟩
  cases herror : Source.compile "x = 7;" with
  | error e => exact ⟨e, rfl, (compile_contained _).1 e herror⟩
  | ok image =>
    have hnone : (Source.compile "x = 7;").toOption = none := by decide +kernel
    rw [herror] at hnone
    cases hnone

end Octet
