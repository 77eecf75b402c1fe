import StampScript.Text.Printable

/-!
# Quoted text

Two ways of putting a text between double quotes:

* `Text.quoted` — for listings of code and values.  Only the quote, the backslash and the
  control characters are escaped; a control character without a short form is written by four
  hexadecimal digits.
* `Text.literal` — for types and messages.  Characters that are not printable are written by
  their number between braces.
-/

namespace StampScript.Text

/-- The lower-case hexadecimal digits of a number, without leading zeros. -/
def hex (n : Nat) : List Char := Nat.toDigits 16 n

/-- Hexadecimal digits filled up to a width with zeros. -/
def hexPadded (width n : Nat) : List Char :=
  let ds := hex n
  List.replicate (width - ds.length) '0' ++ ds

/-- Puts characters between double quotes. -/
def enclose (cs : List Char) : String := String.ofList ('"' :: cs ++ ['"'])

/-! ## Listings -/

/-- One character of a quoted text in a listing. -/
def escapeListed (c : Char) : List Char :=
  match c with
  | '"' => ['\\', '"']
  | '\\' => ['\\', '\\']
  | '\x08' => ['\\', 'b']
  | '\x0c' => ['\\', 'f']
  | '\n' => ['\\', 'n']
  | '\r' => ['\\', 'r']
  | '\t' => ['\\', 't']
  | c => if c.toNat < 0x20 then '\\' :: 'u' :: hexPadded 4 c.toNat else [c]

/-- A text as a listing shows it. -/
def quoted (s : String) : String := enclose (s.toList.flatMap escapeListed)

/-! ## Literals in messages -/

/-- One character of a literal in a message. -/
def escapeLiteral (c : Char) : List Char :=
  match c with
  | '"' => ['\\', '"']
  | '\\' => ['\\', '\\']
  | '\n' => ['\\', 'n']
  | '\r' => ['\\', 'r']
  | '\t' => ['\\', 't']
  | '\x00' => ['\\', '0']
  | c => if isPrintable c then [c] else ['\\', 'u', '\x7b'] ++ hex c.toNat ++ ['\x7d']

/-- A text as a message or a pinned type shows it. -/
def literal (s : String) : String := enclose (s.toList.flatMap escapeLiteral)

end StampScript.Text
