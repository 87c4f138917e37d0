import Octet.CommandLine.Reply

/-!
# The program

The outermost layer: it reads the source file, asks for the reply to the command
line, and writes what the reply says.  While a program runs without a step budget
it asks again with twice the fuel, and writes what is new each time.
-/

namespace Octet
namespace CommandLine

/-- The fault behind a failed reading of a file.  The code of an error may come
with a sign. -/
def ReadFault.ofError : IO.Error → Option ReadFault
  | .noFileOrDirectory _ code _ | .permissionDenied _ code _ | .inappropriateType _ code _
  | .invalidArgument _ code _ => ofCode? code.toInt32.toInt.natAbs
  | _ => none

/-- The contents of the source file that a command line names. -/
def readSource (arguments : List String) : IO (Except ReadFault (List UInt8)) := do
  match Request.ofArguments arguments with
  | .run o =>
    try
      return .ok (← IO.FS.readBinFile (Path.ofText o.source).text).toList
    catch e =>
      match ReadFault.ofError e with
      | some fault => return .error fault
      | none => throw e
  | _ => return .error .missing

/-- Write the part of a text behind what was written before. -/
def writeFrom (written : Nat) (text : String) : IO Unit := do
  let out ← IO.getStdout
  out.putStr (String.ofList (text.toList.drop written))
  out.flush

/-- Reply with more and more fuel until the program has finished. -/
partial def serve (contents : Except ReadFault (List UInt8)) (arguments : List String)
    (fuel written : Nat) : IO UInt32 := do
  match invoke (fun _ => contents) arguments fuel with
  | .finished r =>
    writeFrom written r.stdout
    IO.eprint r.stderr
    return r.exit.toUInt32
  | .broken cause logged =>
    IO.eprint logged
    IO.eprintln cause.message
    return 1
  | .unfinished stdout =>
    writeFrom written stdout
    serve contents arguments (2 * fuel) stdout.length

end CommandLine
end Octet

/-- Reply to the command line. -/
def main (arguments : List String) : IO UInt32 := do
  let contents ← Octet.CommandLine.readSource arguments
  Octet.CommandLine.serve contents arguments 10000 0
