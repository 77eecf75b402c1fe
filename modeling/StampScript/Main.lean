import StampScript.Console
import StampScript.Files

/-!
# The command line program

Runs a file, or reads programs line by line.  A run that needs a file stops and names it; the
file is read, and the run is made again with what is known by then.  Runs are pure, so making
one again is making the same one.
-/

namespace StampScript.CommandLine

/-- What the arguments ask for. -/
structure Arguments where
  limits : Limits := {}
  file : Option String := none

/-- What is said of arguments that are not understood. -/
def usage : String :=
  "usage: stampscript [--iteration-limit <n>] [--max-call-depth <n>] [file]"

/-- Reads arguments, if they are understood. -/
def parse? : List String → Arguments → Option Arguments
  | [], a => some a
  | "--iteration-limit" :: n :: rest, a =>
    match n.toNat? with
    | some n => parse? rest { a with limits := { a.limits with iterations := some n } }
    | none => none
  | "--max-call-depth" :: n :: rest, a =>
    match n.toNat? with
    | some n => parse? rest { a with limits := { a.limits with calls := n } }
    | none => none
  | file :: rest, a =>
    if a.file.isSome || file.startsWith "-" then none
    else parse? rest { a with file := some file }

/-- Why a file cannot be read whose path can be walked.  The number that is told apart is that of
a directory read as a file; an argument that is refused is a step that is too long. -/
def reason : IO.Error → String
  | .noFileOrDirectory .. => PathFault.missing.message
  | .inappropriateType _ 21 _ => PathFault.isDirectory.message
  | .inappropriateType .. => PathFault.notDirectory.message
  | .invalidArgument .. => PathFault.nameTooLong.message
  | .permissionDenied .. => "Permission denied (os error 13)"
  | e => toString e

/-- Reads a file. -/
def readText (path : String) : IO (Except String String) := do
  match unfitPath? path with
  | some fault => return .error fault.message
  | none =>
    try return .ok (← IO.FS.readFile path)
    catch e => return .error (reason e)

/-- Makes a run with more and more files known, until it needs no further one. -/
partial def runKnowing {α : Type} (known : List (String × Except String String))
    (run : Library → Except Stop α) : IO α := do
  match run (fun path => known.lookup path) with
  | .ok a => return a
  | .error (.unknownFile path) => runKnowing ((path, ← readText path) :: known) run
  | .error .exhausted => throw (IO.userError "the budget of the run is used up")

/-- Runs a file. -/
def runFile (limits : Limits) (path : String) : IO UInt32 := do
  let ending ← runKnowing [] (fun library => Console.runFile limits library path)
  (← IO.getStdout).putStr ending.output
  (← IO.getStderr).putStr ending.errors
  return ending.code.toUInt32

/-- Reads and runs lines up to the end of the input. -/
partial def prompt (input output : IO.FS.Stream) (s : Session) : IO UInt32 := do
  output.putStr Console.prompt
  output.flush
  let line ← input.getLine
  if line.isEmpty then return 0
  let (text, s) ← runKnowing [] (fun library => Console.answer (s.withLibrary library) line)
  output.putStr text
  prompt input output s

end StampScript.CommandLine

open StampScript in
/-- Runs the file that the arguments name, or else the lines of the input. -/
def main (args : List String) : IO UInt32 := do
  match CommandLine.parse? args {} with
  | none =>
    (← IO.getStderr).putStrLn CommandLine.usage
    return 2
  | some { limits, file := some path } => CommandLine.runFile limits path
  | some { limits, file := none } =>
    CommandLine.prompt (← IO.getStdin) (← IO.getStdout)
      (Session.start limits (fun _ => none) none .bare)
