import StampScript.Grammar.Statements
import StampScript.Token.Lexer

/-!
# Programs from text

Ties the rules of the grammar together: what is nested in an expression or statement is read by
the same rules, one level further in (`Grammar.nestedWithin`).  As every level takes a token, a
program of `n` lexemes nests less than `n + 1` levels deep.

* `parseLexemes` — the statements of a list of lexemes.
* `parseProgram` — the statements of a text.
* `parseType` — the type at the start of a text, with the lexemes left over.
-/

namespace StampScript

namespace Grammar

open Reader

/-- The readers that refuse everything, for the level below the last. -/
def unreachable : Nested where
  statement _ := throw .tooDeep
  expression _ := throw .tooDeep
  assignment _ := throw .tooDeep
  disjunction _ := throw .tooDeep
  unary _ := throw .tooDeep
  primary _ := throw .tooDeep
  branch _ _ := throw .tooDeep

/-- The readers of what is nested at most the given number of levels. -/
def nestedWithin : Nat → Nested
  | 0 => unreachable
  | n + 1 =>
    { statement := fun m s => statement (nestedWithin n) m s
      expression := fun m s => expression (nestedWithin n) m s
      assignment := fun m s => assignment (nestedWithin n) m s
      disjunction := fun m s => disjunction (nestedWithin n) m s
      unary := fun m s => unary (nestedWithin n) m s
      primary := fun m s => primary (nestedWithin n) m s
      branch := fun m line s => branch (nestedWithin n) m line s }

/-- Statements up to the end; the first number bounds the rounds. -/
def statementsFrom (g : Nested) (m : Mode) : Nat → Reader (List Stmt)
  | 0 => throw .tooDeep
  | n + 1 => do
    match ← peek with
    | none => return []
    | some _ =>
      let s ← g.statement m
      let ss ← statementsFrom g m n
      return s :: ss

/-- A whole program. -/
def program (m : Mode) : Reader (List Stmt) := do
  let n ← bound
  statementsFrom (nestedWithin (n + 1)) m (n + 1)

end Grammar

/-- The statements of a list of lexemes, with constants folded unless the mode forbids it. -/
def parseLexemes (m : Mode) (ls : List Lexeme) : Except ParseError (List Stmt) :=
  (·.1) <$> (Grammar.program m).run (.ofLexemes ls)

/-- The statements of a text. -/
def parseProgram (source : String) : Except ParseError (List Stmt) := do
  parseLexemes {} (← tokenize source)

/-- The type at the start of a text, and what follows it. -/
def parseType (source : String) : Except ParseError (Ty × List Lexeme) := do
  let (t, s) ← Grammar.type.run (.ofLexemes (← tokenize source))
  return (t, s.rest)

end StampScript
