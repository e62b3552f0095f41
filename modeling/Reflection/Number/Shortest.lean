import Reflection.Number.IntegerText
import Reflection.Number.Rounding

/-!
# Shortest decimals

The shortest decimal of a double has the fewest digits among those that round back to it; of
several with as many digits it is the nearest. It is found on the decimal grids of one digit, two
digits and so on: if a grid has a point that rounds back, then one of the two neighbours of the
double on that grid does.

## Main definitions

* `Decimal`: digits and a power of ten.
* `shortest`: the shortest decimal of a positive double.
* `FloatLayout`: how a decimal is written.
-/
namespace Reflection.Number

/-- The number `digits * 10 ^ exponent`. -/
structure Decimal where
  digits : Nat
  exponent : Int
  deriving DecidableEq, Repr

/-- The ratio `num / den` in units of `10 ^ k`. -/
def scaleDecimal (num den : Nat) (k : Int) : Nat × Nat :=
  if 0 ≤ k then (num, den * Nat.pow 10 k.toNat) else (num * Nat.pow 10 (-k).toNat, den)

/-- Number of decimal digits. -/
def digitCount (n : Nat) : Nat := (Nat.toDigits 10 n).length

/-- Exponent of the first digit of a positive ratio. -/
def leadingExponent (num den : Nat) : Int :=
  let guess := (digitCount num : Int) - (digitCount den : Int)
  let (n, d) := scaleDecimal num den guess
  if n < d then guess - 1 else guess

/-- The reals that round to a positive double, as multiples of a quarter of its last place: the
double itself, the two ends, and whether the ends belong to the interval. -/
structure RoundingInterval where
  low : Nat
  value : Nat
  high : Nat
  closed : Bool
  exponent : Int

/-- Interval of the reals that round to a positive double. -/
def Significand.interval (s : Significand) : RoundingInterval :=
  let value := 4 * s.significand
  let low :=
    if s.significand = Nat.pow 2 52 ∧ minExponent < s.exponent then value - 1 else value - 2
  ⟨low, value, value + 2, s.significand % 2 == 0, s.exponent - 2⟩

/-- The point `c * 10 ^ k` lies in the interval. -/
def RoundingInterval.holds (i : RoundingInterval) (c : Nat) (k : Int) : Bool :=
  let (num, den) := scaleDecimal c 1 (-k)
  let (num, den) := if 0 ≤ i.exponent then (num, den * Nat.pow 2 i.exponent.toNat)
    else (num * Nat.pow 2 (-i.exponent).toNat, den)
  if i.closed then i.low * den ≤ num && num ≤ i.high * den
  else i.low * den < num && num < i.high * den

/-- The decimal of `count` digits that rounds back and is nearest, if there is one. -/
def RoundingInterval.onGrid? (i : RoundingInterval) (num den : Nat) (lead : Int) (count : Nat) :
    Option Decimal :=
  let k := lead - (count : Int) + 1
  let (n, d) := scaleDecimal num den k
  let below := n / d
  let nearest := roundDiv n d
  let other := if nearest = below then below + 1 else below
  if i.holds nearest k then some ⟨nearest, k⟩
  else if i.holds other k then some ⟨other, k⟩
  else none

/-- The decimal without zeros at its end. -/
def Decimal.strip : Nat → Decimal → Decimal
  | 0, d => d
  | fuel + 1, d =>
    if d.digits ≠ 0 ∧ d.digits % 10 = 0 then strip fuel ⟨d.digits / 10, d.exponent + 1⟩ else d

/-- The shortest decimal that rounds back to a positive double. Seventeen digits always do. -/
def shortest (s : Significand) : Decimal :=
  let i := s.interval
  let (num, den) := if 0 ≤ s.exponent then (s.significand * Nat.pow 2 s.exponent.toNat, 1)
    else (s.significand, Nat.pow 2 (-s.exponent).toNat)
  let lead := leadingExponent num den
  let found := (List.range 17).findSome? fun n => i.onGrid? num den lead (n + 1)
  (found.getD ⟨0, 0⟩).strip 20

/-- How doubles are written: the range of exponents of the first digit that are written
positionally, the mark of an exponent and the least number of its digits, and the texts of the
doubles that have no digits. -/
structure FloatLayout where
  leastPositional : Int
  mostPositional : Int
  exponentMark : String
  exponentWidth : Nat
  infinite : String
  undefined : String

/-- Digits with a point after the first `whole` of them, at least one digit on both sides. -/
def positional (digits : List Char) (whole : Int) : List Char :=
  if whole ≤ 0 then '0' :: '.' :: List.replicate (-whole).toNat '0' ++ digits
  else
    let n := whole.toNat
    let front := digits.take n ++ List.replicate (n - digits.length) '0'
    let back := digits.drop n
    front ++ '.' :: (if back.isEmpty then ['0'] else back)

/-- Digits with a point after the first one, if more follow, and an exponent. -/
def FloatLayout.scientific (layout : FloatLayout) (digits : List Char) (lead : Int) : List Char :=
  let width := Nat.toDigits 10 lead.natAbs
  let back := digits.drop 1
  digits.take 1 ++ (if back.isEmpty then [] else '.' :: back) ++ layout.exponentMark.toList ++
    (if lead < 0 then '-' else '+') :: List.replicate (layout.exponentWidth - width.length) '0' ++
    width

/-- Text of a double in a layout. -/
def FloatLayout.write (layout : FloatLayout) (x : Float) : String :=
  if x.isNaN then layout.undefined
  else
    let sign := if isNegative x then "-" else ""
    if x.isInf then sign ++ layout.infinite
    else
      let s := Significand.ofFloat x
      if s.significand = 0 then sign ++ "0.0"
      else
        let d := shortest s
        let digits := Nat.toDigits 10 d.digits
        let lead := d.exponent + (digits.length : Int) - 1
        let body :=
          if layout.leastPositional ≤ lead ∧ lead ≤ layout.mostPositional then
            positional digits (lead + 1)
          else layout.scientific digits lead
        sign ++ String.ofList body

end Reflection.Number
