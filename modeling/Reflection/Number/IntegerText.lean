import Reflection.Text.Blank
import Reflection.Text.Digit

/-!
# Integers in text

The text of an integer is an optional sign and digits, with white space around it. Single low lines
may stand between digits, and a text in base sixteen, eight or two may carry the letter of its base
after a first zero. Decimal texts are limited in length, in both directions.

## Main definitions

* `readInteger?`: the integer that a text denotes in a base.
* `writeInteger?`: the decimal text of an integer.
-/
namespace Reflection.Number

open Reflection.Text

/-- The longest decimal text of an integer, in digits. -/
def maxDecimalDigits : Nat := 4300

/-- Digits of one base; low lines stand only between two digits. -/
def readDigits? (base : Nat) : Nat → List Char → Option (List Nat)
  | _, [] => some []
  | room, '_' :: c :: rest =>
    if room = 0 then none
    else match digitValue? c with
      | some d => if d < base then (d :: ·) <$> readDigits? base 1 rest else none
      | none => none
  | _, c :: rest =>
    match digitValue? c with
    | some d => if d < base then (d :: ·) <$> readDigits? base 1 rest else none
    | none => none

/-- Number with the given digits, the first one of the highest weight. -/
def ofDigits (base : Nat) (digits : List Nat) : Nat := digits.foldl (fun n d => n * base + d) 0

/-- Letter that announces a base after a zero. -/
def baseLetter? : Nat → Option Char
  | 16 => some 'x'
  | 8 => some 'o'
  | 2 => some 'b'
  | _ => none

/-- Digits after an optional announcement of the base, itself followed by an optional low line. -/
def dropBaseMark (base : Nat) (cs : List Char) : List Char :=
  match cs with
  | '0' :: letter :: rest =>
    if baseLetter? base = some letter.toLower then
      match rest with
      | '_' :: rest => rest
      | rest => rest
    else cs
  | _ => cs

/-- Digits of the decimal scripts become digits of ASCII, other spaces become blanks. -/
def asciiDigit (c : Char) : Char :=
  if c.toNat < 0x80 then c
  else match decimalValue? c with
    | some d => digitChar d
    | none => if isSpace c then ' ' else c

/-- Natural number that an unsigned text denotes in a base. -/
def readNatural? (base : Nat) (cs : List Char) : Option Nat :=
  let cs := dropBaseMark base cs
  if cs.isEmpty || cs.head? == some '_' then none
  else do
    let digits ← readDigits? base 0 cs
    if base = 10 ∧ maxDecimalDigits < digits.length then none else some (ofDigits base digits)

/-- Integer that a text denotes in a base. -/
def readInteger? (base : Nat) (s : String) : Option Int :=
  match (trim isSpace s).toList.map asciiDigit with
  | '-' :: cs => (readNatural? base cs).map fun n => -(n : Int)
  | '+' :: cs => (readNatural? base cs).map (·)
  | cs => (readNatural? base cs).map (·)

/-- Decimal text of a natural number, the shortest one. -/
def decimal (n : Nat) : String := String.ofList (Nat.toDigits 10 n)

/-- Decimal text of an integer. -/
def decimalInt : Int → String
  | .ofNat n => decimal n
  | .negSucc n => "-" ++ decimal (n + 1)

/-- Decimal text of an integer within the limit on its length. -/
def writeInteger? (n : Int) : Option String :=
  if maxDecimalDigits < (decimal n.natAbs).length then none else some (decimalInt n)

end Reflection.Number
