import StampScript.Number.Reading
import StampScript.ParseError

/-!
# From text to lexemes

The lexer cuts a text into lexemes, always taking the longest that fits.  Blanks and comments
separate lexemes and are dropped; every newline, also one inside a quoted text, advances the
line.

* `Lexer.piece` — what the text starts with: something to skip, a token, or a fault.
* `Lexer.scan` — all lexemes up to the end or the first fault.
* `tokenize` — the lexemes of a text without faults.
-/

namespace StampScript.Lexer

/-! ## Character classes -/

/-- A character that may start a name. -/
def isNameStart (c : Char) : Bool :=
  ('a' ≤ c && c ≤ 'z') || ('A' ≤ c && c ≤ 'Z') || c == '_'

/-- A character that may continue a name. -/
def isNamePart (c : Char) : Bool := isNameStart c || c.isDigit

/-- A character between lexemes that is not a newline. -/
def isSpace (c : Char) : Bool := c == ' ' || c == '\t' || c == '\r' || c == '\x0c'

/-! ## Quoted text -/

/-- The character that stands for itself after a backslash, four letters aside. -/
def unescape : Char → Char
  | 'n' => '\n'
  | 't' => '\t'
  | 'r' => '\r'
  | '0' => '\x00'
  | c => c

/-- Counts one more newline when the character is one. -/
def countLine (c : Char) (n : Nat) : Nat := if c = '\n' then n + 1 else n

/-- The rest of a quoted text after its opening quote: the characters it denotes, how many
newlines it spans, and what follows the closing quote. -/
def quotedRest (quote : Char) : List Char → Option (List Char × Nat × List Char)
  | [] => none
  | c :: cs =>
    if c = quote then some ([], 0, cs)
    else if c = '\\' then
      match cs with
      | [] => none
      | d :: ds =>
        (quotedRest quote ds).map (fun (s, n, rest) => (unescape d :: s, countLine d n, rest))
    else (quotedRest quote cs).map (fun (s, n, rest) => (c :: s, countLine c n, rest))

/-! ## Pieces -/

/-- What a text starts with. -/
inductive Piece where
  /-- Something between lexemes, spanning the given number of newlines. -/
  | skip (newlines : Nat) (rest : List Char)
  /-- A token spanning the given number of newlines. -/
  | token (t : Token) (newlines : Nat) (rest : List Char)
  /-- A quote that is never closed. -/
  | unterminated
  /-- A character that starts no token. -/
  | unknown (c : Char)

/-- A number starts with digits; a point belongs to it when a digit follows. -/
def numberPiece (cs : List Char) : Piece :=
  let whole := cs.takeWhile Char.isDigit
  match cs.dropWhile Char.isDigit with
  | '.' :: d :: rest =>
    if d.isDigit then
      let fraction := (d :: rest).takeWhile Char.isDigit
      .token (.number (Number.ofLexeme (whole ++ '.' :: fraction))) 0
        ((d :: rest).dropWhile Char.isDigit)
    else .token (.number (Number.ofLexeme whole)) 0 ('.' :: d :: rest)
  | rest => .token (.number (Number.ofLexeme whole)) 0 rest

/-- The token of a word: a keyword, or else a name. -/
def wordToken (word : String) : Token :=
  match Token.keywords.find? (fun e => e.1 == word) with
  | some e => e.2.1
  | none => .identifier word

/-- The first sign of the table that the text starts with. -/
def signPiece? (cs : List Char) : Option Piece :=
  (Token.signs.find? (fun e => e.1.toList.isPrefixOf cs)).map
    (fun e => .token e.2.1 0 (cs.drop e.1.length))

/-- What a non-empty text starts with. -/
def piece (c : Char) (cs : List Char) : Piece :=
  if isSpace c then .skip 0 cs
  else if c = '\n' then .skip 1 cs
  else if c = '#' then .skip 0 (cs.dropWhile (· ≠ '\n'))
  else if c = '"' || c = '\'' then
    match quotedRest c cs with
    | some (s, newlines, rest) => .token (.text (String.ofList s)) newlines rest
    | none => .unterminated
  else if isNameStart c then
    .token (wordToken (String.ofList (c :: cs.takeWhile isNamePart))) 0
      (cs.dropWhile isNamePart)
  else if c.isDigit then numberPiece (c :: cs)
  else (signPiece? (c :: cs)).getD (.unknown c)

/-! ## The whole text -/

/-- Cuts a text that starts on the given line.  The first argument bounds the number of pieces;
every piece takes at least one character, so the length of the text is enough. -/
def scanFrom : Nat → Nat → List Char → List Lexeme × Option ParseError
  | 0, _, _ => ([], none)
  | _, _, [] => ([], none)
  | n + 1, line, c :: cs =>
    match piece c cs with
    | .skip newlines rest => scanFrom n (line + newlines) rest
    | .token t newlines rest =>
      let (lexemes, fault) := scanFrom n (line + newlines) rest
      (⟨t, line⟩ :: lexemes, fault)
    | .unterminated => ([], some (.unterminatedString line))
    | .unknown c => ([], some (.unknownCharacter c line))

/-- The lexemes of a text, up to its end or the first fault. -/
def scan (s : String) : List Lexeme × Option ParseError :=
  scanFrom s.length 1 s.toList

end StampScript.Lexer

namespace StampScript

/-- The lexemes of a text, or its first fault. -/
def tokenize (s : String) : Except ParseError (List Lexeme) :=
  match Lexer.scan s with
  | (lexemes, none) => .ok lexemes
  | (_, some fault) => .error fault

end StampScript
