import Octet.CommandLine.Reply
import Octet.Main
import Octet.Tree.Same
import Octet.Tree.Display
import Octet.Proofs.Instr.Encoding
import Octet.Proofs.Instr.Listing
import Octet.Proofs.Layout.Direct
import Octet.Proofs.Draft.Actions
import Octet.Proofs.Layout.Backpatching
import Octet.Proofs.Layout.Targets
import Octet.Proofs.Machine.Ensures
import Octet.Proofs.Machine.Soundness
import Octet.Proofs.Draft.Jumps
import Octet.Proofs.Machine.Failures
import Octet.Proofs.Machine.Host
import Octet.Proofs.Machine.Invariant
import Octet.Proofs.Program.Safety
import Octet.Proofs.Meaning.Interpreter
import Octet.Proofs.Meaning.Matching
import Octet.Proofs.Meaning.Execution
import Octet.Proofs.Meaning.Compiled
import Octet.Proofs.Program.Correctness
import Octet.Proofs.Token.Spelling
import Octet.Proofs.Token.Scanning
import Octet.Proofs.Token.Gap
import Octet.Proofs.Token.Rendering
import Octet.Proofs.Token.Lossless
import Octet.Proofs.Token.Faults
import Octet.Proofs.Tree.Reader
import Octet.Proofs.Tree.Derivation
import Octet.Proofs.Tree.Descent
import Octet.Proofs.Tree.Outcome
import Octet.Proofs.Tree.Following
import Octet.Proofs.Tree.Calls
import Octet.Proofs.Program.Containment
import Octet.Proofs.Tree.Greedy
import Octet.Proofs.Tree.Soundness
import Octet.Proofs.Tree.Completeness
import Octet.Proofs.Token.Spacing
import Octet.Proofs.Tree.Spacing
import Octet.Proofs.Draft.Renaming
import Octet.Proofs.Draft.Spacing
import Octet.Proofs.Program.Spacing
import Octet.Proofs.Program.Renaming
import Octet.Proofs.Layout.Demands
import Octet.Proofs.Draft.Demands
import Octet.Proofs.Program.Acceptance
import Octet.Proofs.Layout.Heights
import Octet.Proofs.Machine.Heights
import Octet.Proofs.Program.StackDiscipline
import Octet.Proofs.Machine.Movement
import Octet.Proofs.Number.Words
import Octet.Proofs.Number.TwosComplement
import Octet.Proofs.Number.Codec
import Octet.Proofs.Machine.Arithmetic
import Octet.Proofs.Machine.Registers
import Octet.Proofs.Layout.Ways
import Octet.Proofs.Layout.Scopes
import Octet.Proofs.Program.Scoping
import Octet.Proofs.Layout.Loops
import Octet.Proofs.Layout.Expressions
import Octet.Proofs.Layout.Exits
import Octet.Proofs.Program.Progress
import Octet.Proofs.Program.Confinement
import Octet.Proofs.Machine.Traps
import Octet.Proofs.Machine.Budgets
import Octet.Proofs.Machine.Stopping
import Octet.Proofs.Program.Running
import Octet.Proofs.Program.Literals
import Octet.Proofs.Program.Fractions
import Octet.Proofs.Tree.Prefixes
import Octet.Proofs.Tree.Separators
import Octet.Proofs.Program.BareReturns
import Octet.Proofs.Draft.Fixups
import Octet.Proofs.Draft.Ledger
import Octet.Proofs.Draft.Growth
import Octet.Proofs.Draft.Mirroring
import Octet.Proofs.Draft.Appending
import Octet.Proofs.Draft.Numbering
import Octet.Proofs.Draft.Sites
import Octet.Proofs.Text.Utf8
import Octet.Proofs.CommandLine.Agreement
