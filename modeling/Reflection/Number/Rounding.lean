/-!
# Ratios and doubles

A finite double is `m * 2 ^ e` with a significand below `2 ^ 53`. A ratio of natural numbers is
rounded to the nearest of them, a half going to the even significand.

## Main definitions

* `Significand`: the two parts of a positive double.
* `Significand.ofRatio?`: rounding, which fails above the greatest double.
* `ofRatio?`, `ofInt?`: signed versions with a double as the answer.
-/
namespace Reflection.Number

/-- The double `significand * 2 ^ exponent`. -/
structure Significand where
  significand : Nat
  exponent : Int
  deriving DecidableEq, Repr

/-- Least exponent of a double. -/
def minExponent : Int := -1074

/-- Greatest exponent of a double. -/
def maxExponent : Int := 971

/-- Quotient of natural numbers rounded to the nearest, a half to the even one. -/
def roundDiv (num den : Nat) : Nat :=
  let q := num / den
  let r := num % den
  if 2 * r < den then q else if den < 2 * r then q + 1 else q + q % 2

/-- The ratio `num / den` in units of `2 ^ e`. -/
def scaleRatio (num den : Nat) (e : Int) : Nat × Nat :=
  if 0 ≤ e then (num, den * Nat.pow 2 e.toNat) else (num * Nat.pow 2 (-e).toNat, den)

/-- Exponent at which a positive ratio has a significand of fifty-three bits, or the least exponent
when that one is greater. -/
def ratioExponent (num den : Nat) : Int :=
  let guess := (num.log2 : Int) - (den.log2 : Int) - 52
  let (n, d) := scaleRatio num den guess
  max minExponent (if n < d * Nat.pow 2 52 then guess - 1 else guess)

/-- The double nearest to a ratio, none when that lies above the greatest double. -/
def Significand.ofRatio? (num den : Nat) : Option Significand :=
  if num = 0 then some ⟨0, minExponent⟩
  else
    let e := ratioExponent num den
    let (n, d) := scaleRatio num den e
    let m := roundDiv n d
    let rounded : Significand := if m = Nat.pow 2 53 then ⟨Nat.pow 2 52, e + 1⟩ else ⟨m, e⟩
    if maxExponent < rounded.exponent then none else some rounded

/-- Bits of the positive double with these parts. -/
def Significand.toBits (s : Significand) : Nat :=
  if s.significand < Nat.pow 2 52 then s.significand
  else (s.exponent - minExponent + 1).toNat * Nat.pow 2 52 + (s.significand - Nat.pow 2 52)

/-- Parts of the positive double that has these bits, the sign bit left out. -/
def Significand.ofBits (bits : Nat) : Significand :=
  let biased : Nat := bits / Nat.pow 2 52 % Nat.pow 2 11
  let fraction : Nat := bits % Nat.pow 2 52
  if biased = 0 then ⟨fraction, minExponent⟩
  else ⟨fraction + Nat.pow 2 52, (biased : Int) - 1 + minExponent⟩

/-- Double with the given sign and magnitude. -/
def Significand.toFloat (negative : Bool) (s : Significand) : Float :=
  Float.ofBits (UInt64.ofNat (s.toBits + if negative then Nat.pow 2 63 else 0))

/-- Magnitude of a double that is neither infinite nor undefined. -/
def Significand.ofFloat (x : Float) : Significand := .ofBits (x.toBits.toNat % Nat.pow 2 63)

/-- The sign bit of a double. -/
def isNegative (x : Float) : Bool := Nat.pow 2 63 ≤ x.toBits.toNat

/-- Positive infinity. -/
def infinity : Float := Float.ofBits 0x7FF0000000000000

/-- The undefined double. -/
def undefined : Float := Float.ofBits 0x7FF8000000000000

/-- The double nearest to a signed ratio, none beyond the range of doubles. -/
def ofRatio? (negative : Bool) (num den : Nat) : Option Float :=
  (Significand.ofRatio? num den).map (·.toFloat negative)

/-- The double nearest to an integer, none beyond the range of doubles. -/
def ofInt? (n : Int) : Option Float := ofRatio? (n < 0) n.natAbs 1

/-- Integer part of a finite double, toward zero. -/
def truncate (x : Float) : Int :=
  let s := Significand.ofFloat x
  let magnitude : Nat :=
    if 0 ≤ s.exponent then s.significand * Nat.pow 2 s.exponent.toNat
    else s.significand / Nat.pow 2 (-s.exponent).toNat
  if isNegative x then -(magnitude : Int) else magnitude

/-- A finite double without a fraction. -/
def isIntegral (x : Float) : Bool :=
  let s := Significand.ofFloat x
  x.isFinite && (0 ≤ s.exponent || s.significand % Nat.pow 2 (-s.exponent).toNat == 0)

end Reflection.Number
