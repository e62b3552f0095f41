import Reflection.Number.Shortest

/-!
# Doubles in text

The text of a double is an optional sign and either digits with an optional point and exponent, or
the name of infinity or of the undefined double, in any letter case. White space may stand around
it and single low lines between digits.

## Main definitions

* `readFloat?`: the double nearest to the decimal that a text denotes.
* `floatText`: the shortest text of a double.
-/
namespace Reflection.Number

open Reflection.Text

/-- Doubles are written positionally from `10 ^ (-4)` up to below `10 ^ 16`, and otherwise with an
exponent of at least two digits. -/
def floatLayout : FloatLayout := ⟨-4, 15, "e", 2, "inf", "nan"⟩

/-- The shortest text of a double. -/
def floatText (x : Float) : String := floatLayout.write x

/-- Digits at the start of a text, low lines between them passed over, and what follows. -/
def takeDigits : List Char → List Nat × List Char
  | c :: '_' :: d :: rest =>
    if c.isDigit then
      if d.isDigit then
        let (digits, left) := takeDigits (d :: rest)
        ((c.toNat - '0'.toNat) :: digits, left)
      else ([c.toNat - '0'.toNat], '_' :: d :: rest)
    else ([], c :: '_' :: d :: rest)
  | c :: rest =>
    if c.isDigit then
      let (digits, left) := takeDigits rest
      ((c.toNat - '0'.toNat) :: digits, left)
    else ([], c :: rest)
  | [] => ([], [])

/-- The double nearest to `digits * 10 ^ exponent`, infinity above the greatest one. Magnitudes far
outside the range of doubles are decided by the number of digits alone. -/
def decimalFloat (negative : Bool) (digits : List Nat) (exponent : Int) : Float :=
  let n := ofDigits 10 digits
  let lead := exponent + (digitCount n : Int)
  if n = 0 ∨ lead < -400 then Significand.toFloat negative ⟨0, minExponent⟩
  else
    let magnitude :=
      if 400 < lead then none
      else
        let (num, den) := scaleDecimal n 1 (-exponent)
        ofRatio? negative num den
    magnitude.getD (if negative then -infinity else infinity)

/-- Exponent at the end of a text, zero for an empty text. -/
def readExponent? : List Char → Option Int
  | [] => some 0
  | e :: rest =>
    if e = 'e' ∨ e = 'E' then
      let (negative, rest) := match rest with
        | '-' :: rest => (true, rest)
        | '+' :: rest => (false, rest)
        | rest => (false, rest)
      match takeDigits rest with
      | ([], _) => none
      | (digits, []) =>
        let n := ofDigits 10 digits
        some (if negative then -(n : Int) else n)
      | _ => none
    else none

/-- Double that an unsigned text denotes. -/
def readMagnitude? (negative : Bool) (cs : List Char) : Option Float :=
  let name := cs.map Char.toLower
  if name = "inf".toList ∨ name = "infinity".toList then
    some (if negative then -infinity else infinity)
  else if name = "nan".toList then some undefined
  else
    let (whole, rest) := takeDigits cs
    let (fraction, rest) := match rest with
      | '.' :: rest => takeDigits rest
      | rest => ([], rest)
    if whole.isEmpty && fraction.isEmpty then none
    else (readExponent? rest).map fun e =>
      decimalFloat negative (whole ++ fraction) (e - (fraction.length : Int))

/-- Double that a text denotes. -/
def readFloat? (s : String) : Option Float :=
  match (trim isSpace s).toList.map asciiDigit with
  | '-' :: cs => readMagnitude? true cs
  | '+' :: cs => readMagnitude? false cs
  | cs => readMagnitude? false cs

end Reflection.Number
