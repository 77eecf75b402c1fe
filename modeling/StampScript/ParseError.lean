import StampScript.Token

/-!
# Faults of program text

Why a text is not a program.  Each fault carries the line it was found on; the two faults of
the grammar also say what was looked for.
-/

namespace StampScript

/-- A fault of program text. -/
inductive ParseError where
  /-- A character that starts no token. -/
  | unknownCharacter (character : Char) (line : Nat)
  /-- A text whose closing quote never comes; the line is that of the opening one. -/
  | unterminatedString (line : Nat)
  /-- A token where something else was expected. -/
  | unexpectedToken (token : Token) (expected : String) (line : Nat)
  /-- The end where something was expected; the line is that of the last token read.  The number of
  tokens left unread goes into no message, and nothing depends on it. -/
  | unexpectedEnd (expected : String) (line left : Nat)
  /-- The grammar was followed deeper than there are tokens, which no text can cause. -/
  | tooDeep
  deriving DecidableEq, Inhabited

/-- The message of a fault. -/
def ParseError.message : ParseError → String
  | .unknownCharacter c line =>
    "Error on line " ++ toString line ++ ": character '" ++ c.toString ++ "' is not known."
  | .unterminatedString line =>
    "Error on line " ++ toString line ++ ": unterminated string literal."
  | .unexpectedToken t expected line =>
    "Error on line " ++ toString line ++ ": unexpected token " ++ t.describe ++ ", expected "
      ++ expected ++ "."
  | .unexpectedEnd expected line _ =>
    "Error on line " ++ toString line ++ ": unexpected end of input, expected " ++ expected
      ++ "."
  | .tooDeep => "Error: nesting is too deep."

end StampScript
