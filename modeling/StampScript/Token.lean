import StampScript.Number.Text
import StampScript.Text.Quoted

/-!
# Tokens

A program is a sequence of lexemes: a token together with the line it starts on.  Tokens are
literals, names, and the fixed words and signs of the language.

* `Token.spelling?` — how a fixed word or sign is written; every spelling is listed once.
* `Token.label` — the bare name of a fixed token.
* `Token.describe` — a token as messages name it.
* `Token.listed` — a token as a listing shows it.
-/

namespace StampScript

/-- The smallest meaningful units of a program. -/
inductive Token where
  | number (x : Float)
  | text (s : String)
  | identifier (name : String)
  | kwLet | kwMut | kwFun | kwRet | kwIf | kwEls | kwWhl | kwFor | kwOf | kwBrk | kwCnt | kwDo
  | kwErr | kwCat | kwMat | kwTag | kwStr | kwUse | kwAs | kwExt | kwTrue | kwFalse | kwNone
  | plus | plusAssign | minus | minusAssign | star | starAssign | slash | slashAssign
  | caret | caretAssign | percent | percentAssign
  | lparen | rparen | lbracket | rbracket | lbrace | rbrace
  | equals | equalEqual | bangEqual | bang
  | greater | greaterEqual | less | lessEqual | shiftLeft | shiftRight
  | pipe | doublePipe | ampersand | doubleAmpersand | question | doubleQuestion
  | arrow | dot | dotDot | colon | colonColon | comma | semicolon
  deriving DecidableEq, Inhabited

/-- A token and the line it starts on. -/
structure Lexeme where
  token : Token
  line : Nat
  deriving DecidableEq, Inhabited

namespace Token

/-! ## Fixed words and signs -/

/-- The words of the language, with the token and the label of each. -/
def keywords : List (String × Token × String) :=
  [("let", kwLet, "Let"), ("mut", kwMut, "Mut"), ("fun", kwFun, "Fun"), ("ret", kwRet, "Ret"),
   ("if", kwIf, "If"), ("els", kwEls, "Els"), ("whl", kwWhl, "While"), ("for", kwFor, "For"),
   ("of", kwOf, "Of"), ("brk", kwBrk, "Brk"), ("cnt", kwCnt, "Cnt"), ("do", kwDo, "Do"),
   ("err", kwErr, "Raise"), ("cat", kwCat, "Catch"), ("mat", kwMat, "Mat"),
   ("tag", kwTag, "Tag"), ("str", kwStr, "Struct"), ("use", kwUse, "Use"), ("as", kwAs, "As"),
   ("ext", kwExt, "Ext"), ("true", kwTrue, "True"), ("false", kwFalse, "False"),
   ("none", kwNone, "NoneLiteral")]

/-- The signs of the language, with the token and the label of each.  Longer signs come before
the shorter ones they start with, so the first sign that fits is the longest. -/
def signs : List (String × Token × String) :=
  [("+=", plusAssign, "PlusAssign"), ("-=", minusAssign, "MinusAssign"),
   ("*=", starAssign, "StarAssign"), ("/=", slashAssign, "SlashAssign"),
   ("^=", caretAssign, "CaretAssign"), ("%=", percentAssign, "PercentAssign"),
   ("==", equalEqual, "EqualEqual"), ("!=", bangEqual, "BangEqual"),
   (">=", greaterEqual, "GreaterEqual"), ("<=", lessEqual, "LessEqual"),
   ("<<", shiftLeft, "ShiftLeft"), (">>", shiftRight, "ShiftRight"),
   ("||", doublePipe, "DoublePipe"), ("&&", doubleAmpersand, "DoubleAmpersand"),
   ("??", doubleQuestion, "DoubleQuestion"), ("->", arrow, "Arrow"), ("..", dotDot, "DotDot"),
   ("::", colonColon, "ColonColon"),
   ("+", plus, "Plus"), ("-", minus, "Minus"), ("*", star, "Star"), ("/", slash, "Slash"),
   ("^", caret, "Caret"), ("%", percent, "Percent"), ("(", lparen, "LParen"),
   (")", rparen, "RParen"), ("[", lbracket, "LBracket"), ("]", rbracket, "RBracket"),
   ("\x7b", lbrace, "LBrace"), ("\x7d", rbrace, "RBrace"), ("=", equals, "Equals"),
   ("!", bang, "Bang"), (">", greater, "Greater"), ("<", less, "Less"), ("|", pipe, "Pipe"),
   ("&", ampersand, "Ampersand"), ("?", question, "Question"), (".", dot, "Dot"),
   (":", colon, "Colon"), (",", comma, "Comma"), (";", semicolon, "Semicolon")]

/-- The entry of a fixed word or sign. -/
def fixed? (t : Token) : Option (String × Token × String) :=
  (keywords ++ signs).find? (fun e => e.2.1 = t)

/-- How a fixed word or sign is written. -/
def spelling? (t : Token) : Option String := (fixed? t).map (·.1)

/-- The bare name of a fixed token. -/
def label (t : Token) : String := ((fixed? t).map (·.2.2)).getD ""

/-! ## Tokens in messages and listings -/

/-- A token as messages name it. -/
def describe : Token → String
  | number x => "Number(" ++ Number.literalText x ++ ")"
  | text s => "Str(" ++ Text.literal s ++ ")"
  | identifier name => "Identifier(" ++ Text.literal name ++ ")"
  | t => t.label

/-- A token as a listing shows it. -/
def listed : Token → String
  | number x => "Number " ++ Number.signedText x
  | text s => "Str " ++ Text.quoted s
  | identifier name => "Identifier " ++ name
  | t => t.label

end Token

end StampScript
