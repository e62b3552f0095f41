import Reflection.Token.Stream

/-!
# Loops over tokens

A reader that works on the tokens that remain has moved on where fewer of them remain. A loop whose
rounds all move on, unless they end it, ends after as many rounds as there are tokens.

## Main definitions

* `Advances`: some tokens were read, and others are left.
* `AdvancesTo`: the same by positions in a list of tokens.
* `Round`, `Round.loop`: rounds of a loop, and the loop with a limit to their number.
* `Round.MovesFrom`: a round moves on from a position, unless it ends its loop.
* `Round.Continues`: a round brings a loop nearer to what it comes to.

## Main statements

* `Advances.position`: what is left begins at a later position, at most the end.
* `Round.loop_eq`: a loop whose rounds bring it nearer to something comes to it.
-/
namespace Reflection

/-- Some tokens were read, and the others are left. -/
def Advances (ts left : List Token) : Prop := ∃ used, used ≠ [] ∧ ts = used ++ left

/-- What is left begins at a position after `p` that is not past the end of the list. -/
def AdvancesTo (tokens : List Token) (p : Nat) (left : List Token) : Prop :=
  ∃ q, p < q ∧ q ≤ tokens.length ∧ left = tokens.drop q

variable {ts mid left rest tokens : List Token} {t : Token} {p : Nat}

theorem advances_cons (h : left <:+ rest) : Advances (t :: rest) left := by
  obtain ⟨used, rfl⟩ := h
  exact ⟨t :: used, List.cons_ne_nil t used, rfl⟩

theorem Advances.length_lt (h : Advances ts left) : left.length < ts.length := by
  obtain ⟨used, hused, rfl⟩ := h
  have hpos : 0 < used.length := List.length_pos_iff.mpr hused
  rw [List.length_append]
  omega

theorem Advances.suffix (h : Advances ts left) : left <:+ ts := by
  obtain ⟨used, -, rfl⟩ := h
  exact List.suffix_append used left

theorem Advances.trans_suffix (h : Advances ts mid) (hleft : left <:+ mid) : Advances ts left := by
  obtain ⟨used, hused, rfl⟩ := h
  obtain ⟨more, rfl⟩ := hleft
  exact ⟨used ++ more, by simp [hused], by rw [List.append_assoc]⟩

theorem Advances.of_suffix (hmid : mid <:+ ts) (h : Advances mid left) : Advances ts left := by
  obtain ⟨before, rfl⟩ := hmid
  obtain ⟨used, hused, rfl⟩ := h
  exact ⟨before ++ used, by simp [hused], by rw [List.append_assoc]⟩

theorem Advances.of_cons_suffix (h : t :: left <:+ ts) : Advances ts left :=
  .of_suffix h (advances_cons left.suffix_refl)

/-- Where tokens were read from a position on, what is left begins at a later one. -/
theorem Advances.position (h : Advances (tokens.drop p) left) : AdvancesTo tokens p left := by
  obtain ⟨used, hused, heq⟩ := h
  have hpos : 0 < used.length := List.length_pos_iff.mpr hused
  have hlength := congrArg List.length heq
  rw [List.length_drop, List.length_append] at hlength
  refine ⟨p + used.length, by omega, by omega, ?_⟩
  rw [← List.drop_drop, heq, List.drop_left]

/-! ## Rounds -/

/-- What a round of a loop comes to: another round, a fault, or the end of the loop. -/
inductive Round (σ ε α : Type)
  | goesOn (next : σ)
  | raises (fault : ε)
  | ends (result : α)

namespace Round

variable {σ ε α β : Type}

/-- Rounds one after the other, at most as many as the budget. Nothing comes of the loop where it goes
on beyond the budget, or where one of its rounds does. -/
def loop (round : σ → Option (Round σ ε α)) : Nat → σ → Option (Except ε α)
  | 0, _ => none
  | budget + 1, s =>
    match round s with
    | none => none
    | some (.goesOn next) => loop round budget next
    | some (.raises fault) => some (.error fault)
    | some (.ends result) => some (.ok result)

/-- A round ends its loop, raises a fault, or goes on at a position after `p` that is not past the end of
the list. -/
def MovesFrom (tokens : List Token) (p : Nat) (r : Round (β × List Token) ε α) : Prop :=
  ∀ next, r = .goesOn next → AdvancesTo tokens p next.2

/-- A round ends with what is said to come of the loop, or goes on with fewer tokens to where the same
comes of it. -/
def Continues (whole : β × List Token → Except ε α) (s : β × List Token) :
    Round (β × List Token) ε α → Prop
  | .goesOn next => Advances s.2 next.2 ∧ whole next = whole s
  | .raises fault => whole s = .error fault
  | .ends result => whole s = .ok result

/-- The rounds from some tokens on, and from fewer of them, all bring the loop nearer to what is said
to come of it. So this comes of it, given a round for each token and one more. -/
theorem loop_eq {round : β × List Token → Option (Round (β × List Token) ε α)}
    {whole : β × List Token → Except ε α} {budget : Nat} {s : β × List Token}
    (hbudget : s.2.length < budget)
    (h : ∀ s' : β × List Token, s'.2.length ≤ s.2.length →
      ∃ r, round s' = some r ∧ r.Continues whole s') :
    loop round budget s = some (whole s) := by
  induction budget generalizing s with
  | zero => exact absurd hbudget (Nat.not_lt_zero _)
  | succ budget ih =>
    obtain ⟨r, hround, hr⟩ := h s (Nat.le_refl _)
    rw [loop, hround]
    cases r with
    | goesOn next =>
      obtain ⟨hadvances, hsame⟩ := hr
      have hlt := hadvances.length_lt
      exact (ih (by omega) fun s' hs' => h s' (by omega)).trans (congrArg some hsame)
    | raises fault => exact congrArg some hr.symm
    | ends result => exact congrArg some hr.symm

theorem Continues.movesFrom {whole : β × List Token → Except ε α} {b : β}
    {r : Round (β × List Token) ε α} (h : r.Continues whole (b, tokens.drop p)) :
    r.MovesFrom tokens p := by
  rintro next rfl
  exact h.1.position

end Round
end Reflection
