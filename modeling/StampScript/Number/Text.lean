import StampScript.Number.Digits

/-!
# Numbers as text

All forms below start from the fewest digits that read back.  They differ in the layout and in
the names of the special numbers:

* `Number.text` — how the language prints a number: positional, and `0` for both zeros.
* `Number.signedText` — the same with `-0` told apart, for listings of code and values.
* `Number.addressText` — the form used for addresses in messages.
* `Number.literalText` — the form of a number literal in messages: always with a fraction or
  an exponent.
-/

namespace StampScript.Number

/-- A digit string of zeros. -/
def zeros (n : Nat) : String := String.ofList (List.replicate n '0')

/-- The fewest digits of the size of a finite non-zero number. -/
def digitsOf (x : Float) : Digits := Digits.shortest (Magnitude.ofFloat x)

/-- Writes digits without an exponent. -/
def positional (d : Digits) : String :=
  let ds := (toString d.digits).toList
  if 0 ≤ d.exponent then String.ofList ds ++ zeros d.exponent.toNat
  else
    let fraction := (-d.exponent).toNat
    if fraction < ds.length then
      String.ofList (ds.take (ds.length - fraction)) ++ "."
        ++ String.ofList (ds.drop (ds.length - fraction))
    else "0." ++ zeros (fraction - ds.length) ++ String.ofList ds

/-- Writes digits with one digit before the point and an exponent. -/
def scientific (d : Digits) : String :=
  let ds := (toString d.digits).toList
  let exponent := d.exponent + (ds.length : Int) - 1
  let fraction := if ds.length = 1 then "" else "." ++ String.ofList (ds.drop 1)
  String.ofList (ds.take 1) ++ fraction ++ "e" ++ toString exponent

/-- A minus sign in front of negative numbers. -/
def sign (x : Float) : String := if Magnitude.isNegative x then "-" else ""

/-- A number as the language prints it. -/
def text (x : Float) : String :=
  if x.isNaN then "NaN"
  else if x.isInf then sign x ++ "Infinity"
  else if x == 0 then "0"
  else sign x ++ positional (digitsOf x)

/-- A number in a listing, where negative zero keeps its sign. -/
def signedText (x : Float) : String :=
  if x == 0 then sign x ++ "0" else text x

/-- A number as an address in a message. -/
def addressText (x : Float) : String :=
  if x.isInf then sign x ++ "inf" else signedText x

/-- A number literal in a message: positional from `0.0001` up to `10^16`, and with an exponent
outside that range. -/
def literalText (x : Float) : String :=
  if x.isNaN then "NaN"
  else if x.isInf then sign x ++ "inf"
  else if x == 0 then sign x ++ "0.0"
  else
    let d := digitsOf x
    if 0.0001 ≤ x.abs && x.abs < 1e16 then
      sign x ++ positional d ++ (if 0 ≤ d.exponent then ".0" else "")
    else sign x ++ scientific d

end StampScript.Number
