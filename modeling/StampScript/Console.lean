import StampScript.Session

/-!
# The console

What the command line program says: for a file, or line by line.

* `Console.runFile` — runs a file; whatever is wrong with it goes to the error output.
* `Console.answer` — the answer to one line at the prompt of a session.
* `Console.runLines` — all that is said for a list of lines.
-/

namespace StampScript.Console

/-- How the program ends and what it said. -/
structure Ending where
  code : UInt8
  output : String
  errors : String
  deriving DecidableEq, Inhabited, Repr

/-! ## Files -/

/-- What is said of a file without a text. -/
def unreadable (path : String) : String :=
  "Failed to read the input file '" ++ path ++ "'. Perhaps this file does not exist?\n"

/-- Runs a file. -/
def runFile (limits : Limits) (library : Library) (path : String) : Except Stop Ending :=
  match library path with
  | none => .error (.unknownFile path)
  | some (.error _) => return ⟨1, "", unreadable path⟩
  | some (.ok source) => do
    let (r, s) ← (Session.start limits library (some path) .bare).evaluate source
    match r with
    | .ok _ => return ⟨0, s.state.output, ""⟩
    | .error e => return ⟨1, s.state.output, e.message ++ "\n"⟩

/-! ## Lines -/

/-- What stands before every line that is read. -/
def prompt : String := "> "

/-- Runs a line.  Gives what is said about it and the session afterwards. -/
def answer (s : Session) (line : String) : Except Stop (String × Session) := do
  let (r, s) ← s.evaluate line
  let (written, s) := s.takeOutput
  match r with
  | .ok v => return (written ++ "Exited with " ++ s.state.render v ++ "\n", s)
  | .error e => return (written ++ e.message ++ "\n", s)

/-- Runs lines.  Gives all that is said, from the first prompt to the one that meets the end of
the lines. -/
def transcript (s : Session) : List String → Except Stop String
  | [] => return prompt
  | line :: rest => do
    let (text, s) ← answer s line
    return prompt ++ text ++ (← transcript s rest)

/-- Runs lines at the prompt of a new session. -/
def runLines (limits : Limits) (library : Library) (lines : List String) : Except Stop Ending :=
  do return ⟨0, ← transcript (Session.start limits library none .bare) lines, ""⟩

/-- The lines of a list of characters, given the start of the first line in reverse.  A line
keeps its line feed. -/
def linesFrom : List Char → List Char → List String
  | [], [] => []
  | start, [] => [String.ofList start.reverse]
  | start, c :: cs =>
    if c = '\n' then String.ofList (c :: start).reverse :: linesFrom [] cs
    else linesFrom (c :: start) cs

/-- The lines of a text. -/
def lines (text : String) : List String := linesFrom [] text.toList

end StampScript.Console
