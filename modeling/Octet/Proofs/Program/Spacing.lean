import Octet.Proofs.Draft.Spacing
import Octet.Proofs.Tree.Spacing
import Octet.Source

/-!
# Layout does not influence compilation

A text may be spread over lines, indented and commented as one likes: what it compiles to depends on
its tokens, and on which of them stand on the line of a `return`, but not on where they stand
otherwise.  This is a statement about two texts at a time, and about failures as much as about
images: if one of the texts is refused, so is the other one, by the same stage and in the same
words.  Only the place that is reported differs.

Both stages behind the scanner are followed for two inputs at once, reading in
`ofTokens_sameButSpacing` and laying out in `compile_unplaced`.
-/

namespace Octet

/-- Two faults of the same stage that are reported in the same words, though maybe not at the same
place. -/
inductive SourceError.SameWording : SourceError → SourceError → Prop
  | parse {e e' : ParseError} : e.message = e'.message → SameWording (.parse e) (.parse e')
  | compile {e e' : CompileError} : e.fault.message = e'.fault.message →
      e.fault.kind? = e'.fault.kind? → SameWording (.compile e) (.compile e')

/-- A fault of the grammar is worded by what is asked for and by the spelling of the token. -/
theorem message_of_unplaced {e e' : ParseError} (hfault : e.fault = e'.fault)
    (hfound : e.found.unplaced = e'.found.unplaced) : e.message = e'.message := by
  have hdescribe : e.found.describe = e'.found.describe := by
    rw [Token.describe, Token.describe, (Token.mk.inj hfound).1, (Token.mk.inj hfound).2.1]
  rw [ParseError.message, ParseError.message, hfault, hdescribe]

/-- A text that is read is laid out. -/
theorem compile_of_program {text : String} {tokens : List Token} {p : Program}
    (h : tokenize text = .ok tokens) (hp : Program.ofTokens tokens = .ok p) :
    Source.compile text = p.compile.mapError SourceError.compile := by
  have hparse : Source.parse text = .ok p := by
    rw [Source.parse, h]
    exact congrArg (Except.mapError SourceError.parse) hp
  exact Source.compile_of_parse hparse

/-- A text that is not read is refused for that. -/
theorem compile_of_parseError {text : String} {tokens : List Token} {e : ParseError}
    (h : tokenize text = .ok tokens) (he : Program.ofTokens tokens = .error e) :
    Source.compile text = .error (.parse e) := by
  have hparse : Source.parse text = .error (.parse e) := by
    rw [Source.parse, h]
    exact congrArg (Except.mapError SourceError.parse) he
  rw [Source.compile, hparse]
  rfl

/-- **Two texts with the same tokens compile to the same image, or are refused in the same words**,
wherever their tokens stand: it only matters whether the token behind a `return` stands on its
line. -/
theorem compile_sameButSpacing {text text' : String} {tokens tokens' : List Token}
    (h : tokenize text = .ok tokens) (h' : tokenize text' = .ok tokens')
    (hspelled : tokens.map Token.unplaced = tokens'.map Token.unplaced)
    (hreturns : returnLines tokens = returnLines tokens') :
    (∃ image, Source.compile text = .ok image ∧ Source.compile text' = .ok image) ∨
    ∃ e e', Source.compile text = .error e ∧ Source.compile text' = .error e' ∧
      e.SameWording e' := by
  obtain ⟨p, q, hp, hq, hsame⟩ | ⟨e, e', he, he', hfault, hfound⟩ :=
    ofTokens_sameButSpacing ⟨hspelled, hreturns⟩
  · rw [compile_of_program h hp, compile_of_program h' hq]
    obtain ⟨image, hpc, hqc⟩ | ⟨e, e', hpc, hqc, hfault⟩ := compile_unplaced hsame
    · rw [hpc, hqc]
      exact .inl ⟨image, rfl, rfl⟩
    · rw [hpc, hqc]
      exact .inr ⟨_, _, rfl, rfl, .compile (by rw [hfault]) (by rw [hfault])⟩
  · rw [compile_of_parseError h he, compile_of_parseError h' he']
    exact .inr ⟨_, _, rfl, rfl, .parse (message_of_unplaced hfault hfound)⟩

/-- A binding and a `return` on one line. -/
def compactText : String := "let x = 1 return -x"

/-- The same, spread over lines and commented. -/
def spreadText : String := "let x = // one\n  1\nreturn -\n  x\n"

/-- The tokens of both, which differ in where the last five of them stand. -/
def bindingTokens (one word sign name finish : Pos) : List Token :=
  [⟨.letWord, "let", ⟨1, 1⟩, none⟩, ⟨.identifier, "x", ⟨1, 5⟩, none⟩, ⟨.equal, "=", ⟨1, 7⟩, none⟩,
    ⟨.number, "1", one, some (.int 1)⟩, ⟨.returnWord, "return", word, none⟩,
    ⟨.minus, "-", sign, none⟩, ⟨.identifier, "x", name, none⟩, .eof finish]

/-- What is found by evaluation is what a stage yields. -/
theorem eq_ok_of_toOption {ε α : Type} {r : Except ε α} {x : α} (h : r.toOption = some x) :
    r = .ok x := by
  cases r with
  | error e => cases h
  | ok y =>
    cases h
    rfl

theorem compile_sameButSpacing_binding :
    tokenize compactText = .ok (bindingTokens ⟨1, 9⟩ ⟨1, 11⟩ ⟨1, 18⟩ ⟨1, 19⟩ ⟨1, 20⟩) ∧
    tokenize spreadText = .ok (bindingTokens ⟨2, 3⟩ ⟨3, 1⟩ ⟨3, 8⟩ ⟨4, 3⟩ ⟨5, 1⟩) ∧
    ((∃ image, Source.compile compactText = .ok image ∧ Source.compile spreadText = .ok image) ∨
      ∃ e e', Source.compile compactText = .error e ∧ Source.compile spreadText = .error e' ∧
        e.SameWording e') := by
  have hcompact : tokenize compactText =
      .ok (bindingTokens ⟨1, 9⟩ ⟨1, 11⟩ ⟨1, 18⟩ ⟨1, 19⟩ ⟨1, 20⟩) :=
    eq_ok_of_toOption (by decide +kernel)
  have hspread : tokenize spreadText = .ok (bindingTokens ⟨2, 3⟩ ⟨3, 1⟩ ⟨3, 8⟩ ⟨4, 3⟩ ⟨5, 1⟩) :=
    eq_ok_of_toOption (by decide +kernel)
  exact ⟨hcompact, hspread, compile_sameButSpacing hcompact hspread rfl (by decide)⟩

end Octet
