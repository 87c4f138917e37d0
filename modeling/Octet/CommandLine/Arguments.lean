import Octet.Number.Numeral
import Octet.Text.Quoted

/-!
# Arguments of the command line

The command line takes one source file and three switches: `-h` or `--help`, `-v`
or `--verbose`, and `--max-steps` with a value.  They may stand in any order and
be repeated, and the last value counts.

## How an argument reads

Reading goes in two passes.  The first (`classify`) looks at each argument alone.
An argument that starts with a dash is a switch if it is the name of one, or the
beginning of exactly one long name, or a short name with something attached to
it; a value may be attached with an equals sign.  Otherwise it is plain if it
could be a negative number or holds a space, and unknown if not.  A lone `--`
ends the switches: all that follows it is plain.

The mark never is a value, not even behind an equals sign: in `--max-steps=--` it
vanishes and leaves a step budget without a number.

The second pass (`consume`) goes through the arguments from left to right.  A
plain one is the value of a switch that asks for one, else the source, else too
much.  Short switches may be clustered, as in `-vh`: what is attached to a short
switch, with or without an equals sign, is read as the letters of further ones.
What is left at the first character that is no such letter is a value that the
switch in front of it cannot take.

What is too much or unknown is reported only at the end, after a missing source;
any other misuse is reported where it is met, and a request for help is answered
there.
-/

namespace Octet
namespace CommandLine

/-- The switches. -/
inductive Switch where
  | help | verbose | maxSteps
  deriving DecidableEq, Repr

namespace Switch

/-- Every switch. -/
def all : List Switch := [help, verbose, maxSteps]

/-- The long name of a switch. -/
def long : Switch → String
  | help => "--help"
  | verbose => "--verbose"
  | maxSteps => "--max-steps"

/-- The letter of the short name of a switch. -/
def letter? : Switch → Option Char
  | help => some 'h'
  | verbose => some 'v'
  | maxSteps => none

/-- All names of a switch. -/
def names (s : Switch) : List String :=
  (s.letter?.map fun c => String.ofList ['-', c]).toList ++ [s.long]

/-- How diagnostics name a switch. -/
def title (s : Switch) : String :=
  String.intercalate "/" s.names

/-- The switch of a name. -/
def ofName? (name : String) : Option Switch :=
  all.find? (·.names.contains name)

/-- The switch of a letter. -/
def ofLetter? (c : Char) : Option Switch :=
  all.find? (·.letter? == some c)

/-- The switches whose long names begin like this. -/
def startingWith (name : List Char) : List Switch :=
  all.filter fun s => name.isPrefixOf s.long.toList

end Switch

/-- How a command line is misused. -/
inductive Misuse where
  /-- No source is given. -/
  | sourceRequired
  /-- These arguments mean nothing. -/
  | unrecognized (texts : List String)
  /-- A switch asks for a value and none follows. -/
  | valueMissing (s : Switch)
  /-- A value is no integer. -/
  | noInteger (s : Switch) (text : String)
  /-- A value is attached to a switch that takes none. -/
  | valueIgnored (s : Switch) (text : String)
  /-- An argument begins like several long names. -/
  | ambiguous (text : String) (candidates : List Switch)
  deriving DecidableEq, Repr

/-- The wording of a misuse. -/
def Misuse.message : Misuse → String
  | sourceRequired => "the following arguments are required: source"
  | unrecognized texts => "unrecognized arguments: " ++ String.intercalate " " texts
  | valueMissing s => "argument " ++ s.title ++ ": expected one argument"
  | noInteger s text => "argument " ++ s.title ++ ": invalid int value: " ++ Text.quoted text
  | valueIgnored s text =>
    "argument " ++ s.title ++ ": ignored explicit argument " ++ Text.quoted text
  | ambiguous text candidates =>
    "ambiguous option: " ++ text ++ " could match " ++
      String.intercalate ", " (candidates.map Switch.long)

/-- What is attached to a switch. -/
inductive Attached where
  /-- Nothing. -/
  | nothing
  /-- A value behind a long name and an equals sign. -/
  | toLong (value : List Char)
  /-- Characters behind a short name.  An equals sign between them is left out. -/
  | toShort (tail : List Char)
  deriving DecidableEq, Repr

/-- How an argument reads by itself. -/
inductive Argument where
  | plain (text : String)
  | switch (s : Switch) (attached : Attached)
  | unknown (text : String)
  deriving DecidableEq, Repr

/-! ## The first pass -/

/-- Whether what follows a dash makes it a negative number. -/
def looksNumeric (text : List Char) : Bool :=
  let body := if text.getLast? = some '\n' then text.dropLast else text
  match body.dropWhile Text.isDecimalDigit with
  | [] => !body.isEmpty
  | '.' :: part => !part.isEmpty && part.all Text.isDecimalDigit
  | _ => false

/-- An argument with a dash that names no switch. -/
def classifyOther (tail : List Char) : Argument :=
  let text := String.ofList ('-' :: tail)
  if looksNumeric tail || tail.contains ' ' then .plain text else .unknown text

/-- The part of a text in front of its first equals sign, and the part behind it
if there is one. -/
def splitEquals (text : List Char) : List Char × Option (List Char) :=
  match text.dropWhile (· != '=') with
  | [] => (text, none)
  | _ :: value => (text.takeWhile (· != '='), some value)

/-- An argument made of a dash and more that is not the name of a switch. -/
def classifyTail (tail : List Char) : Except Misuse Argument :=
  let (name, value) := splitEquals ('-' :: tail)
  match tail, value, Switch.ofName? (String.ofList name) with
  | '-' :: _, some v, some s => .ok (.switch s (.toLong v))
  | _, some v, some s => .ok (.switch s (.toShort v))
  | '-' :: _, value, none =>
    match Switch.startingWith name with
    | [] => .ok (classifyOther tail)
    | [s] => .ok (.switch s (value.elim .nothing .toLong))
    | candidates => .error (.ambiguous (String.ofList ('-' :: tail)) candidates)
  | c :: more, _, _ =>
    match Switch.ofLetter? c with
    | some s => .ok (.switch s (.toShort more))
    | none => .ok (classifyOther tail)
  | [], _, _ => .ok (.plain "-")

/-- How an argument reads by itself. -/
def classify (text : String) : Except Misuse Argument :=
  match Switch.ofName? text, text.toList with
  | some s, _ => .ok (.switch s .nothing)
  | none, '-' :: tail => classifyTail tail
  | none, _ => .ok (.plain text)

/-- All arguments in front of the end of the switches, and the texts behind it if
it is marked. -/
def classifyAll : List String → Except Misuse (List Argument × Option (List String))
  | [] => .ok ([], none)
  | text :: rest =>
    if text = "--" then .ok ([], some rest)
    else do
      let argument ← classify text
      let (later, plain) ← classifyAll rest
      return (argument :: later, plain)

/-! ## The second pass -/

/-- How many steps a run may take. -/
inductive Budget where
  /-- As many as it needs. -/
  | unlimited
  /-- This many, a negative number being as good as zero. -/
  | steps (n : Int)
  /-- A budget is asked for, and there is no number. -/
  | blank
  deriving DecidableEq, Repr

/-- The budget that a value stands for. -/
def Budget.ofText? (text : String) : Option Budget :=
  if text = "--" then some .blank else (Numeral.toInt? text).map .steps

/-- What a command line asks for. -/
structure Options where
  source : String
  verbose : Bool
  budget : Budget
  deriving DecidableEq, Repr

/-- What the arguments read so far ask for. -/
structure Tally where
  source : Option String := none
  /-- Whether the argument read last is the source. -/
  atSource : Bool := false
  verbose : Bool := false
  budget : Budget := .unlimited
  /-- The arguments that mean nothing. -/
  extra : List String := []

/-- What a command line comes to. -/
inductive Request where
  /-- Show how the command line is used. -/
  | help
  /-- Report a misuse. -/
  | misuse (m : Misuse)
  /-- Run a program. -/
  | run (o : Options)
  deriving DecidableEq, Repr

namespace Tally

/-- Take a plain argument. -/
def plain (t : Tally) (text : String) : Tally :=
  match t.source with
  | none => { t with source := some text, atSource := true }
  | some _ => { t with extra := t.extra ++ [text], atSource := false }

/-- Take an argument that means nothing. -/
def unknown (t : Tally) (text : String) : Tally :=
  { t with extra := t.extra ++ [text], atSource := false }

/-- Take the value of the step budget. -/
def limit (t : Tally) (text : String) : Except Request Tally :=
  match Budget.ofText? text with
  | some b => .ok { t with budget := b, atSource := false }
  | none => .error (.misuse (.noInteger .maxSteps text))

/-- Take a switch without a value. -/
def turnOn (t : Tally) : Switch → Except Request Tally
  | .help => .error .help
  | .verbose => .ok { t with verbose := true, atSource := false }
  | .maxSteps => .error (.misuse (.valueMissing .maxSteps))

/-- Take the texts behind the end of the switches, the first being the source if
there was none.  The mark itself counts as too much unless it stands between the
source and the other texts or in front of the source. -/
def behindMark (t : Tally) (texts : List String) : Tally :=
  match t.source, texts with
  | none, text :: more => { t with source := some text, extra := t.extra ++ more }
  | _, texts =>
    if t.atSource then { t with extra := t.extra ++ texts }
    else { t with extra := t.extra ++ "--" :: texts }

/-- What the arguments come to. -/
def request (t : Tally) : Request :=
  match t.source with
  | none => .misuse .sourceRequired
  | some source =>
    if t.extra.isEmpty then .run ⟨source, t.verbose, t.budget⟩
    else .misuse (.unrecognized t.extra)

end Tally

/-- The switches of a cluster that starts with a switch and has more characters
behind it. -/
def cluster (s : Switch) : List Char → Except Misuse (List Switch)
  | [] => .error (.valueIgnored s "")
  | c :: tail =>
    match Switch.ofLetter? c, tail with
    | none, _ => .error (.valueIgnored s (String.ofList (c :: tail)))
    | some next, [] => .ok [s, next]
    | some next, d :: more => (cluster next (d :: more)).map (s :: ·)

/-- Go through arguments from left to right. -/
def consume (t : Tally) : List Argument → Except Request Tally
  | [] => .ok t
  | .plain text :: rest => consume (t.plain text) rest
  | .unknown text :: rest => consume (t.unknown text) rest
  | .switch .maxSteps (.toLong value) :: rest => do
    let t ← t.limit (String.ofList value)
    consume t rest
  | .switch .maxSteps .nothing :: .plain text :: rest => do
    let t ← t.limit text
    consume t rest
  | .switch s .nothing :: rest => do
    let t ← t.turnOn s
    consume t rest
  | .switch s (.toLong value) :: _ => .error (.misuse (.valueIgnored s (String.ofList value)))
  | .switch s (.toShort tail) :: rest => do
    let switches ← (cluster s tail).mapError .misuse
    let t ← switches.foldlM Tally.turnOn t
    consume t rest

/-- What a command line comes to. -/
def Request.ofArguments (arguments : List String) : Request :=
  match classifyAll arguments with
  | .error m => .misuse m
  | .ok (front, behind) =>
    match consume {} front with
    | .error request => request
    | .ok t => (behind.elim t t.behindMark).request

end CommandLine
end Octet
