import Octet.Draft.Emission
import Octet.Machine.Run
import Octet.Tree.Reader

/-!
# Source text

From text to image: the text is scanned into tokens, the tokens are read as a
program, and the program is laid out.  Each stage has its own faults, and
`SourceError` is a fault of any of them; the first stage that fails decides.

A text that has an image can be run: its image is run on a fresh machine with the
built-ins of the language.
-/

namespace Octet

/-- Why a text has no image. -/
inductive SourceError where
  /-- It cannot be scanned. -/
  | lex (e : LexError)
  /-- Its tokens are no program. -/
  | parse (e : ParseError)
  /-- Its program cannot be laid out. -/
  | compile (e : CompileError)
  deriving DecidableEq, Repr

namespace Source

/-- The program that a text spells. -/
def parse (text : String) : Except SourceError Program := do
  let tokens ← (tokenize text).mapError .lex
  (Program.ofTokens tokens).mapError .parse

/-- The image of a text. -/
def compile (text : String) : Except SourceError Image := do
  let program ← parse text
  program.compile.mapError .compile

/-- A text that is read is laid out. -/
theorem compile_of_parse {text : String} {p : Program} (h : parse text = .ok p) :
    compile text = p.compile.mapError .compile := by
  rw [compile, h]
  rfl

end Source

/-- Run an image on a fresh machine for at most this many steps. -/
def Image.runFor (image : Image) (budget : Nat) : Except MachineError Outcome × State :=
  (Machine.runFor .standard budget).perform ⟨image, defaultMaxStack⟩ {}

namespace Source

/-- Compile a text and run it for at most this many steps. -/
def runFor (text : String) (budget : Nat) :
    Except SourceError (Except MachineError Outcome × State) := do
  let image ← compile text
  return image.runFor budget

end Source
end Octet
