/-!
# Bitwise operations on integers

An integer stands for its infinite two's complement, so `-(n + 1)` has the complement of the bits
of `n`. Each operation is the one on natural numbers, up to such complements.
-/
namespace Reflection.Number

/-- Bits that both integers have. -/
def bitAnd : Int → Int → Int
  | .ofNat m, .ofNat n => .ofNat (m &&& n)
  | .ofNat m, .negSucc n => .ofNat (m - (m &&& n))
  | .negSucc m, .ofNat n => .ofNat (n - (m &&& n))
  | .negSucc m, .negSucc n => .negSucc (m ||| n)

/-- Integer with the complementary bits. -/
def bitNot (n : Int) : Int := -n - 1

/-- Bits that at least one of the integers has. -/
def bitOr (m n : Int) : Int := bitNot (bitAnd (bitNot m) (bitNot n))

/-- Bits that exactly one of the integers has. -/
def bitXor : Int → Int → Int
  | .ofNat m, .ofNat n => .ofNat (m ^^^ n)
  | .ofNat m, .negSucc n => .negSucc (m ^^^ n)
  | .negSucc m, .ofNat n => .negSucc (m ^^^ n)
  | .negSucc m, .negSucc n => .ofNat (m ^^^ n)

/-- Integer without its `count` lowest bits: its quotient by `2 ^ count`, rounded down. A count
beyond the bits of the integer leaves only its sign. -/
def shiftRight (n : Int) (count : Nat) : Int :=
  if n.natAbs.log2 < count then (if n < 0 then -1 else 0) else n.fdiv (Nat.pow 2 count)

/-- Integer with `count` more bits, all zero, below its own. -/
def shiftLeft (n : Int) (count : Nat) : Int := n * Nat.pow 2 count

end Reflection.Number
