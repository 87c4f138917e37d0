import Octet.CommandLine.Arguments
import Octet.CommandLine.Files
import Octet.Source
import Octet.Text.Newline
import Octet.Text.Utf8

/-!
# Replies of the command line

`invoke` answers a command line: it reads the source, compiles it, runs it, and
says what is written to the two output streams and what the exit code is.  Files
are read through a function, so that the answer depends on nothing but its
arguments.

Three things leave a command line without an exit code: a source that is no text,
a path that cannot name a file, and a step budget without a number.  The last is
found out where the run first asks whether its budget is used up, so the program
has been compiled by then and none of it has been run.

A program may run forever, so a run without a step budget is given fuel.  If the
fuel is used up the reply is `unfinished`, with what was written so far, and
asking again with more fuel goes further.

With `--verbose` the activity is logged: one line for the layout of a program,
one for its compilation, one for the beginning of its run, and one for the end of
a run that does not fail.
-/

namespace Octet
namespace CommandLine

/-- The name of the program. -/
def programName : String := "vimib"

/-- How the command line is used, in one line. -/
def usage : String :=
  "usage: " ++ programName ++ " [-h] [-v] [--max-steps MAX_STEPS] source\n"

/-- How the command line is used, at length. -/
def helpText : String :=
  usage ++ "\n" ++ programName ++ " bytecode compiler/executor\n\n" ++
  "positional arguments:\n" ++
  "  source                Source file\n\n" ++
  "options:\n" ++
  "  -h, --help            show this help message and exit\n" ++
  "  -v, --verbose         Log compiler and VM activity\n" ++
  "  --max-steps MAX_STEPS\n" ++
  "                        Stop after this many instructions\n"

/-- What a finished command line leaves: its exit code and what it wrote. -/
structure Report where
  exit : Nat
  stdout : String
  stderr : String
  deriving DecidableEq, Repr

/-- Why a command line breaks off without an exit code. -/
inductive Breakdown where
  /-- The source file is no text. -/
  | undecodable (f : Text.Utf8.Fault)
  /-- The path of the source file cannot name a file. -/
  | impossiblePath
  /-- The steps taken are to be compared with a budget that is no number. -/
  | blankBudget
  deriving DecidableEq, Repr

/-- The wording of a breakdown. -/
def Breakdown.message : Breakdown → String
  | undecodable f => f.message
  | impossiblePath => "embedded null byte"
  | blankBudget => "'>=' not supported between instances of 'int' and 'list'"

/-- What a command line is answered. -/
inductive Reply where
  /-- It has finished. -/
  | finished (r : Report)
  /-- It has broken off, and this was logged before; no program has written anything. -/
  | broken (cause : Breakdown) (stderr : String)
  /-- It used up its fuel, and this was written so far. -/
  | unfinished (stdout : String)
  deriving DecidableEq, Repr

/-- A line of the log, if there is a log. -/
def logLine (verbose : Bool) (part message : String) : String :=
  if verbose then programName ++ "." ++ part ++ ": " ++ message ++ "\n" else ""

/-- The log line for the layout of a program. -/
def layoutMessage (d : Draft) : String :=
  "generated " ++ toString d.code.length ++ " bytes, " ++ toString d.constants.length ++
    " constants, " ++ toString d.registers.length ++ " registers"

/-- The log line for the beginning of a run. -/
def startMessage (image : Image) : String :=
  "running " ++ toString image.code.length ++ " bytes, " ++ toString image.constants.length ++
    " constants"

/-- The log line for the end of a run. -/
def endMessage (budget : Budget) (outcome : Outcome) (s : State) : String :=
  match outcome, budget with
  | .exhausted, .steps n =>
    "step budget of " ++ toString n ++ " exhausted at ip=" ++ toString s.ip
  | _, _ => "halted after " ++ toString s.steps ++ " steps at ip=" ++ toString s.ip

/-- A position behind the name of the source. -/
def placeText (pos : Pos) : String :=
  ":" ++ toString pos.line ++ ":" ++ toString pos.col

/-- The diagnostic for a text that is no program. -/
def syntaxMessage (path : Path) (pos : Pos) (message : String) : String :=
  "Syntax error at " ++ path.text ++ placeText pos ++ ": " ++ message ++ "\n"

/-- A known place behind the name of the source. -/
def siteText (s : Site) : String :=
  match s.line, s.col with
  | some line, some col => placeText ⟨line, col⟩
  | _, _ => ""

/-- The diagnostic for a program that cannot be laid out. -/
def compileMessage (path : Path) (e : CompileError) : String :=
  "Compile error in " ++ path.text ++ siteText e.site ++ ": " ++ e.fault.message ++ "\n"

/-- The diagnostic for a text without an image. -/
def sourceMessage (path : Path) : SourceError → String
  | .lex e => syntaxMessage path e.pos e.fault.message
  | .parse e => syntaxMessage path e.pos e.message
  | .compile e => compileMessage path e

/-- The diagnostic for a run that fails. -/
def runMessage (e : MachineError) : String :=
  match e with
  | .trap _ offset => "Runtime error at offset " ++ toString offset ++ ": " ++ e.message ++ "\n"
  | .stopped => e.message ++ "\n"

/-- All that a program has written. -/
def written (s : State) : String :=
  String.join s.output.toList

/-- The report of a run that is over, behind what was logged before. -/
def Report.ofRun (o : Options) (logged : String) :
    Except MachineError Outcome × State → Report
  | (.error e, s) => ⟨1, written s, logged ++ runMessage e⟩
  | (.ok outcome, s) =>
    ⟨0, written s, logged ++ logLine o.verbose "vm" (endMessage o.budget outcome s)⟩

/-- Run an image and report, behind what was logged before. -/
def runImage (o : Options) (image : Image) (fuel : Nat) (logged : String) : Reply :=
  let logged := logged ++ logLine o.verbose "vm" (startMessage image)
  match o.budget with
  | .blank => .broken .blankBudget logged
  | .steps n => .finished (.ofRun o logged (image.runFor n.toNat))
  | .unlimited =>
    match image.runFor fuel with
    | (.ok .exhausted, s) => .unfinished (written s)
    | ended => .finished (.ofRun o logged ended)

/-- Compile a text, run it and report. -/
def runText (o : Options) (path : Path) (text : String) (fuel : Nat) : Reply :=
  match Source.parse text with
  | .error e => .finished ⟨1, "", sourceMessage path e⟩
  | .ok program =>
    match program.layOut with
    | (.error e, _) => .finished ⟨1, "", sourceMessage path (.compile e)⟩
    | (.ok image, draft) =>
      runImage o image fuel
        (logLine o.verbose "codegen" (layoutMessage draft) ++
          logLine o.verbose "driver" ("compiled " ++ path.text))

/-- Run a program whose source has these contents, or could not be read. -/
def run (o : Options) (contents : Except ReadFault (List UInt8)) (fuel : Nat) : Reply :=
  let path := Path.ofText o.source
  match contents with
  | .error fault =>
    .finished ⟨1, "", "Cannot read " ++ path.text ++ ": " ++ fault.message path ++ "\n"⟩
  | .ok bytes =>
    match Text.Utf8.decode bytes with
    | .error fault => .broken (.undecodable fault) ""
    | .ok chars => runText o path (String.ofList (Text.unifyNewlines chars)) fuel

/-- Answer a command line. -/
def invoke (read : Path → Except ReadFault (List UInt8)) (arguments : List String) (fuel : Nat) :
    Reply :=
  match Request.ofArguments arguments with
  | .help => .finished ⟨0, helpText, ""⟩
  | .misuse m => .finished ⟨2, "", usage ++ programName ++ ": error: " ++ m.message ++ "\n"⟩
  | .run o =>
    if o.source.toList.contains (Char.ofNat 0) then .broken .impossiblePath ""
    else run o (read (.ofText o.source)) fuel

end CommandLine
end Octet
