import Mathlib.Data.Int.Bitwise
import Mathlib.Data.Nat.Bitwise
import Reflection.Number.Bitwise

/-!
# Bits of integers

The bitwise operations act on the bits of the infinite two's complement, one by one.

## Main statements

* `testBit_bitAnd`, `testBit_bitNot`: the bits of a conjunction and of a complement.
* `bitAnd_two_pow_eq_iff`: an integer has all bits of a power of two where it has its only one.
-/
namespace Reflection.Number

/-- The bits of `m` that `n` does not have, by subtraction. -/
theorem ldiff_eq_sub (m n : Nat) : Nat.ldiff m n = m - (m &&& n) := by
  suffices h : Nat.ldiff m n + (m &&& n) = m by omega
  induction m using Nat.binaryRec' generalizing n with
  | zero => simp [Nat.ldiff]
  | bit a m _ ih =>
    obtain ⟨b, n, rfl⟩ : ∃ b k, n = Nat.bit b k := ⟨n.bodd, n.div2, (Nat.bit_bodd_div2 n).symm⟩
    have hrest := ih n
    rw [Nat.ldiff_bit, Nat.land_bit]
    simp only [Nat.bit_val]
    cases a <;> cases b <;> simp <;> omega

theorem bitAnd_eq_land (m n : Int) : bitAnd m n = Int.land m n := by
  cases m with
  | ofNat m =>
    cases n with
    | ofNat n => rfl
    | negSucc n => exact congrArg Int.ofNat (ldiff_eq_sub m n).symm
  | negSucc m =>
    cases n with
    | ofNat n =>
      rw [bitAnd, Nat.and_comm]
      exact congrArg Int.ofNat (ldiff_eq_sub n m).symm
    | negSucc n => rfl

theorem bitNot_eq_lnot (n : Int) : bitNot n = Int.lnot n := by
  cases n with
  | ofNat n =>
    show -(n : Int) - 1 = Int.negSucc n
    omega
  | negSucc n =>
    show -Int.negSucc n - 1 = (n : Int)
    omega

@[simp] theorem testBit_bitAnd (m n : Int) (i : Nat) :
    (bitAnd m n).testBit i = (m.testBit i && n.testBit i) := by
  rw [bitAnd_eq_land, Int.testBit_land]

@[simp] theorem testBit_bitNot (n : Int) (i : Nat) : (bitNot n).testBit i = !n.testBit i := by
  rw [bitNot_eq_lnot, Int.testBit_lnot]

/-- An integer that has no bit in common with another one lacks the bits of that one. -/
theorem testBit_of_bitAnd_eq_zero {m n : Int} (h : bitAnd m n = 0) {i : Nat}
    (hn : n.testBit i = true) : m.testBit i = false := by
  have hi := congrArg (Int.testBit · i) h
  rw [testBit_bitAnd, hn, Bool.and_true] at hi
  exact hi.trans (by simp [Int.testBit])

/-- The conjunction with a power of two is that power just where the integer has its bit. -/
theorem bitAnd_two_pow_eq_iff (n : Int) (i : Nat) :
    bitAnd n (2 ^ i : Nat) = (2 ^ i : Nat) ↔ n.testBit i = true := by
  have hpos : ¬ 0 = 2 ^ i := (Nat.two_pow_pos i).ne
  cases n with
  | ofNat n =>
    show Int.ofNat (n &&& 2 ^ i) = Int.ofNat (2 ^ i) ↔ n.testBit i = true
    rw [Nat.and_two_pow, Int.ofNat.injEq]
    cases n.testBit i <;> simp [hpos]
  | negSucc n =>
    show Int.ofNat (2 ^ i - (n &&& 2 ^ i)) = Int.ofNat (2 ^ i) ↔ (!n.testBit i) = true
    rw [Nat.and_two_pow, Int.ofNat.injEq]
    cases n.testBit i <;> simp [hpos]

end Reflection.Number
