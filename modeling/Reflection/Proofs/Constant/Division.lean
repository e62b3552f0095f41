import Mathlib.Tactic.SplitIfs
import Reflection.Proofs.Constant.Operation

/-!
# Quotients and remainders of integers

The remainder of two integers has the sign of the first one, and its distance from zero is less than that of
the second one. What is left of the first integer without the remainder is a multiple of the second one, so
the quotient of the two is an integer and not a double: the first integer divided by the second one, cut off
toward zero. There is neither a quotient nor a remainder for zero as the second integer.

## Main statements

* `BinaryOp.signedRemainder_eq_tmod`: the remainder, put together from distances and a sign.
* `BinaryOp.remainder_apply`, `BinaryOp.divide_apply_of_dvd`: the operators on operands that count as
  integers.
* `evaluate_division`: quotient and remainder in source.
-/
namespace Reflection

open Value

/-! ## Integers -/

theorem natAbs_tmod_lt (m : Int) {n : Int} (hn : n ≠ 0) : (m.tmod n).natAbs < n.natAbs := by
  rw [Int.natAbs_tmod]
  exact Nat.mod_lt _ (Int.natAbs_pos.mpr hn)

theorem sign_tmod_of_ne_zero {m n : Int} (h : m.tmod n ≠ 0) : (m.tmod n).sign = m.sign := by
  rw [Int.sign_tmod, if_neg (mt Int.tmod_eq_zero_of_dvd h)]

/-- What is left of an integer without the remainder has the same quotient. -/
theorem tdiv_sub_tmod (m : Int) {n : Int} (hn : n ≠ 0) : (m - m.tmod n).tdiv n = m.tdiv n := by
  rw [← Int.mul_tdiv_self, Int.mul_tdiv_cancel_left _ hn]

/-! ## Operators -/

namespace BinaryOp

variable {left right : Value} {m n : Int}

theorem subtract_apply (hm : left.asInt? = some m) (hn : right.asInt? = some n) :
    subtract.apply left right = .ok (.int (m - n)) := by
  show arithmetic subtract (· - ·) (· - ·) left right = _
  rw [arithmetic, hm, hn]

theorem remainderOperand_of_asInt? (hm : left.asInt? = some m) : remainderOperand left = .ok m := by
  cases left <;> cases hm <;> rfl

/-- The sign that is put before the remainder of the distances is that of a division cut off toward zero. -/
theorem signedRemainder_eq_tmod (m n : Int) : signedRemainder m n = m.tmod n := by
  rw [signedRemainder, ← Int.natAbs_tmod]
  split_ifs with hm
  · have hopposite : 0 ≤ -m.tmod n := by
      rw [← Int.neg_tmod]
      exact Int.tmod_nonneg n (by omega)
    omega
  · have hnonneg : 0 ≤ m.tmod n := Int.tmod_nonneg n (Int.not_lt.mp hm)
    omega

theorem remainder_apply (hm : left.asInt? = some m) (hn : right.asInt? = some n) :
    remainder.apply left right = if n = 0 then remainder.misfit else .ok (.int (m.tmod n)) := by
  simp only [apply, remainderOperand_of_asInt? hm, remainderOperand_of_asInt? hn, signedRemainder_eq_tmod]
  rfl

theorem divide_apply_zero (hm : left.asInt? = some m) (hn : right.asInt? = some 0) :
    divide.apply left right = divide.misfit := by
  show quotient left right = _
  rw [quotient, hm, hn]
  exact if_pos rfl

/-- Where one integer is a multiple of another one, all ways to divide agree. -/
theorem divide_apply_of_dvd (hm : left.asInt? = some m) (hn : right.asInt? = some n) (hzero : n ≠ 0)
    (hdvd : n ∣ m) : divide.apply left right = .ok (.int (m.tdiv n)) := by
  have hexact : m.fmod n = 0 := Int.fmod_eq_zero_of_dvd hdvd
  have hquotient : m.fdiv n = m.tdiv n :=
    (Int.fdiv_eq_ediv_of_dvd hdvd).trans (Int.tdiv_eq_ediv_of_dvd hdvd).symm
  show quotient left right = _
  rw [quotient, hm, hn]
  dsimp only
  rw [if_neg hzero, if_pos hexact, hquotient]

end BinaryOp

/-! ## Source -/

/-- Quotient and remainder of two operands `a` and `b` that count as integers. Where `b` is not zero the
remainder `r` of `a % b` is closer to zero than `b` and is zero or has the sign of `a`; the quotient `q` of
`(a - a % b) / b` is an integer, `q * b + r` is `a` again, and `q` is `a` divided by `b` and cut off toward
zero. Where `b` is zero, both operators are refused. -/
theorem evaluate_division {lookup : ConstantLookup} {room : Nat} {xs ys us : List Token} {v w : Value}
    {a b : Int} (hx : ComputesTo lookup room 0 xs (.ok v)) (ha : v.asInt? = some a)
    (hy : ComputesTo lookup room 0 ys (.ok w)) (hb : w.asInt? = some b) {percent minus slash : Token}
    (hpercent : percent.isPunct "%" = true) (hminus : minus.isPunct "-" = true)
    (hslash : slash.isPunct "/" = true)
    (hparens : Parenthesized (xs ++ minus :: (xs ++ percent :: ys)) us) :
    if b = 0 then
      evaluate lookup room (xs ++ percent :: ys) = .error (.unsupported (.cannotApply "%") (-1)) ∧
        evaluate lookup room (xs ++ slash :: ys) = .error (.unsupported (.cannotApply "/") (-1))
    else
      ∃ q r : Int, evaluate lookup room (xs ++ percent :: ys) = .ok (.int r) ∧
        r.natAbs < b.natAbs ∧ (r = 0 ∨ r.sign = a.sign) ∧
        evaluate lookup (room + 1) (us ++ slash :: ys) = .ok (.int q) ∧
        q * b + r = a ∧ q = a.tdiv b := by
  have hremainder := ComputesTo.binary .remainder hpercent (hx.loosen (Nat.zero_le _)) hy
  rw [BinaryOp.remainder_apply ha hb] at hremainder
  split_ifs with hzero
  · rw [if_pos hzero] at hremainder
    subst hzero
    have hquotient := ComputesTo.binary .divide hslash (hx.loosen (Nat.zero_le _)) hy
    rw [BinaryOp.divide_apply_zero ha hb] at hquotient
    exact ⟨hremainder.evaluate_eq (by decide), hquotient.evaluate_eq (by decide)⟩
  · rw [if_neg hzero] at hremainder
    have hdifference := ComputesTo.binary .subtract hminus (hx.loosen (Nat.zero_le _)) hremainder
    rw [BinaryOp.subtract_apply ha rfl] at hdifference
    have hgroup := hparens.computesTo (hdifference.evaluate_eq (by decide))
    have hquotient := ComputesTo.binary .divide hslash (hgroup.loosen (Nat.zero_le _))
      (hy.widen (Nat.le_succ room))
    have hmultiple : b ∣ a - a.tmod b := ⟨_, (Int.mul_tdiv_self a b).symm⟩
    rw [BinaryOp.divide_apply_of_dvd rfl hb hzero hmultiple, tdiv_sub_tmod a hzero] at hquotient
    exact ⟨a.tdiv b, a.tmod b, hremainder.evaluate_eq (by decide), natAbs_tmod_lt a hzero,
      Decidable.or_iff_not_imp_left.mpr sign_tmod_of_ne_zero, hquotient.evaluate_eq (by decide),
      Int.tdiv_mul_add_tmod a b, rfl⟩

/-- Seven with a sign before it, and a constant that is two: the quotient is cut off toward zero, though
the remainder is negative. -/
theorem evaluate_division_negative :
    let number : Token := ⟨.numberLiteral, "7", 1, 0⟩
    let sign (text : String) : Token := ⟨.punctuation, text, 1, 0⟩
    let name : Token := ⟨.identifier, "Two", 1, 0⟩
    let lookup : ConstantLookup := fun name => if name = "Two" then some (.int 2) else none
    let remainder := [sign "-", number, sign "%", name]
    let group := sign "(" :: ([sign "-", number] ++ sign "-" :: remainder) ++ [sign ")"]
    ComputesTo lookup 0 0 [sign "-", number] (.ok (.int (-7))) ∧
      ComputesTo lookup 0 0 [name] (.ok (.int 2)) ∧
      evaluate lookup 0 remainder = .ok (.int (-1)) ∧
      evaluate lookup 1 (group ++ [sign "/", name]) = .ok (.int (-3)) := by
  intro number sign name lookup remainder group
  have hnumber : Spells (.ranked 0 (.number "7")) [number] false := .literal (by decide) rfl
  have hseven : parseNumber "7" = .ok (.int 7) := rfl
  have hx : ComputesTo lookup 0 0 [sign "-", number] (.ok (.int (-7))) := by
    have hnegate : (sign "-").unaryOp? = some .negate := by decide
    refine ⟨_, _, .unary hnegate hnumber, by decide, ?_⟩
    simp only [Expression.value, hseven]
    rfl
  have hbegins : name.beginsName [] :=
    ⟨by decide, Option.isNone_iff_eq_none.mp (by decide), by decide, by decide,
      by simp [Token.startsWith], .inl rfl⟩
  have hy : ComputesTo lookup 0 0 [name] (.ok (.int 2)) :=
    .reference hbegins (by simp) (if_pos (by decide))
  have hpercent : (sign "%").isPunct "%" = true := rfl
  have hminus : (sign "-").isPunct "-" = true := rfl
  have hslash : (sign "/").isPunct "/" = true := rfl
  have hparens : Parenthesized ([sign "-", number] ++ sign "-" :: remainder) group :=
    ⟨sign "(", sign ")", rfl, rfl, rfl⟩
  have hdivision := evaluate_division hx rfl hy rfl hpercent hminus hslash hparens
  rw [if_neg (by decide)] at hdivision
  obtain ⟨q, r, hr, -, -, hq, hsum, rfl⟩ := hdivision
  have hremainder : r = -1 := by
    have hquotient : (-7 : Int).tdiv 2 = -3 := by decide
    omega
  exact ⟨hx, hy, hremainder ▸ hr, hq⟩

end Reflection
