/-!
# Reading numbers

A decimal text denotes the double nearest to it.  Two readers share that rule:

* `Number.ofLexeme` reads what the lexer calls a number: digits with an optional fraction.
* `Number.parse?` reads the wider form that programs may convert from text: a sign, a point on
  either side of the digits, an exponent, and the names of the special numbers.
-/

namespace StampScript.Number

/-- The value of a list of decimal digits. -/
def naturalOf (ds : List Char) : Nat :=
  ds.foldl (fun n c => 10 * n + (c.toNat - '0'.toNat)) 0

/-- The number nearest to `digits · 10^exponent`.  Beyond the range of numbers the result is
infinite or zero, whatever the exponent, so no huge power is ever computed. -/
def ofDecimal (digits : Nat) (exponent : Int) : Float :=
  let length : Int := (toString digits).length
  if digits = 0 then 0
  else if length + exponent > 400 then 1 / 0
  else if length + exponent < -400 then 0
  else Float.ofScientific digits (exponent < 0) exponent.natAbs

/-- The number of an integer part and a fraction part. -/
def ofParts (whole fraction : List Char) (exponent : Int) : Float :=
  ofDecimal (naturalOf (whole ++ fraction)) (exponent - fraction.length)

/-- The number that a literal of digits, with an optional point and fraction, denotes. -/
def ofLexeme (cs : List Char) : Float :=
  ofParts (cs.takeWhile (· ≠ '.')) ((cs.dropWhile (· ≠ '.')).drop 1) 0

/-! ## Conversion from text -/

/-- Blank characters, in the sense of the white-space property of text. -/
def isBlank (c : Char) : Bool :=
  let n := c.toNat
  (9 ≤ n && n ≤ 13) || n == 0x20 || n == 0x85 || n == 0xA0 || n == 0x1680
    || (0x2000 ≤ n && n ≤ 0x200A) || n == 0x2028 || n == 0x2029 || n == 0x202F || n == 0x205F
    || n == 0x3000

/-- Drops blanks at both ends. -/
def trim (cs : List Char) : List Char :=
  ((cs.dropWhile isBlank).reverse.dropWhile isBlank).reverse

/-- An optional sign: whether it is a minus, and what follows. -/
def splitSign : List Char → Bool × List Char
  | '-' :: cs => (true, cs)
  | '+' :: cs => (false, cs)
  | cs => (false, cs)

/-- An exponent: a letter `e`, an optional sign, and at least one digit up to the end.  No
exponent at all stands for zero. -/
def exponent? : List Char → Option Int
  | [] => some 0
  | c :: cs =>
    if c = 'e' || c = 'E' then
      let (negative, ds) := splitSign cs
      if ds.isEmpty || !ds.all Char.isDigit then none
      else some (if negative then -(naturalOf ds : Int) else naturalOf ds)
    else none

/-- An unsigned decimal with digits on at least one side of the point. -/
def unsigned? (cs : List Char) : Option Float :=
  let whole := cs.takeWhile Char.isDigit
  let rest := cs.dropWhile Char.isDigit
  let (fraction, rest) := match rest with
    | '.' :: r => (r.takeWhile Char.isDigit, r.dropWhile Char.isDigit)
    | r => ([], r)
  if whole.isEmpty && fraction.isEmpty then none
  else (exponent? rest).map (ofParts whole fraction)

/-- The number a text denotes, blanks at the ends aside. -/
def parse? (s : String) : Option Float :=
  let (negative, cs) := splitSign (trim s.toList)
  let word := String.ofList (cs.map Char.toLower)
  let size :=
    if word = "inf" || word = "infinity" then some (1 / 0)
    else if word = "nan" then some (0 / 0)
    else unsigned? cs
  size.map (fun x => if negative then -x else x)

end StampScript.Number
