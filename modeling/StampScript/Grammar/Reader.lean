import StampScript.ParseError

/-!
# Reading lexemes

A reader takes lexemes from the front of a stream and makes something of them, or finds a
fault.  Besides the lexemes a stream knows the line of the last one read, for faults at the end,
and whether half of a `>>` has been used up (`Stream.halfShift`).

* `Reader.peek`, `Reader.next` — look at the next lexeme, take it.
* `Reader.accept`, `Reader.expect`, `Reader.identifier` — take a lexeme of a given kind.
* `Reader.separated` — a list with optional commas, up to a closing token.
-/

namespace StampScript

/-- A type that was read for its own sake and not as a part of another type. -/
structure Annotation where
  /-- What was read of the program for it. -/
  lexemes : List Lexeme
  /-- Half of a `>>` was left over when the type began. -/
  halfBefore : Bool
  /-- Half of a `>>` was left over when the type ended. -/
  halfAfter : Bool
  deriving DecidableEq, Inhabited

/-- The lexemes still to be read, with what reading has left behind. -/
structure Stream where
  rest : List Lexeme
  /-- The line of the last lexeme read. -/
  lastLine : Nat := 1
  /-- A `>>` was read where only its first `>` was wanted. -/
  halfShift : Bool := false
  /-- At least the number of lexemes left, and so of the rounds of any loop. -/
  bound : Nat
  /-- The annotations read so far, the last one first.  Nothing depends on them. -/
  annotations : List Annotation := []
  deriving Inhabited

/-- The stream of a list of lexemes. -/
def Stream.ofLexemes (ls : List Lexeme) : Stream := { rest := ls, bound := ls.length }

/-- Notes the annotation that was read since the stream `before`. -/
def Stream.note (before s : Stream) : Stream :=
  let lexemes := before.rest.take (before.rest.length - s.rest.length)
  { s with annotations := ⟨lexemes, before.halfShift, s.halfShift⟩ :: s.annotations }

/-- A reader of lexemes. -/
abbrev Reader := StateT Stream (Except ParseError)

namespace Reader

/-! ## Single lexemes -/

/-- The next lexeme, without taking it. -/
def peek : Reader (Option Lexeme) := do return (← get).rest.head?

/-- The lexeme `n` places after the next one, without taking any. -/
def peekAt (n : Nat) : Reader (Option Lexeme) := do return (← get).rest[n]?

/-- At least the number of lexemes left. -/
def bound : Reader Nat := do return (← get).bound

/-- Takes the next lexeme. -/
def next : Reader (Option Lexeme) := do
  let s ← get
  match s.rest with
  | [] => return none
  | l :: ls =>
    set { s with rest := ls, lastLine := l.line }
    return some l

/-- The fault of finding something other than what was expected, or the end. -/
def unexpected {α : Type} (found : Option Lexeme) (expected : String) : Reader α := do
  match found with
  | some l => throw (.unexpectedToken l.token expected l.line)
  | none =>
    let s ← get
    throw (.unexpectedEnd expected s.lastLine s.rest.length)

/-- The next lexeme is the given token. -/
def nextIs (t : Token) : Reader Bool := do
  match ← peek with
  | some l => return l.token = t
  | none => return false

/-- Takes the given token if it is next, and says whether it was. -/
def accept (t : Token) : Reader Bool := do
  if ← nextIs t then
    let _ ← next
    return true
  else return false

/-- Takes the given token or fails; gives its line. -/
def expect (t : Token) (expected : String) : Reader Nat := do
  match ← next with
  | some l => if l.token = t then return l.line else unexpected (some l) expected
  | none => unexpected none expected

/-- Takes a name or fails; gives it with its line. -/
def identifier (expected : String) : Reader (String × Nat) := do
  match ← next with
  | some ⟨.identifier name, line⟩ => return (name, line)
  | found => unexpected found expected

/-! ## Lists -/

/-- The loop of `separated`; the number bounds its rounds. -/
def separatedFrom {α : Type} (item : Reader α) (closing : Token) (expected : String) :
    Nat → Reader (List α)
  | 0 => throw .tooDeep
  | n + 1 => do
    match ← peek with
    | none => unexpected none expected
    | some l =>
      if l.token = closing then
        let _ ← next
        return []
      else
        let a ← item
        let _ ← accept .comma
        let as ← separatedFrom item closing expected n
        return a :: as

/-- Items up to a closing token, each with an optional comma after it. -/
def separated {α : Type} (item : Reader α) (closing : Token) (expected : String) :
    Reader (List α) := do
  separatedFrom item closing expected ((← bound) + 1)

end Reader

end StampScript
