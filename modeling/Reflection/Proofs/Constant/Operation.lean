import Reflection.Proofs.Constant.Soundness

/-!
# Expressions put together from tokens

What an operator between two lists of tokens evaluates to depends on the values of the two only, as long as
they bind tightly enough; and a list of tokens in parentheses binds more tightly than any operator.

## Main definitions

* `ComputesTo`: tokens spell an expression of some rank with an outcome.
* `Parenthesized`: tokens in parentheses.

## Main statements

* `ComputesTo.reference`: the name of a constant.
* `ComputesTo.binary`: the outcome of an operator between operands.
* `Parenthesized.computesTo`: tokens that have a value, put in parentheses.
-/
namespace Reflection

open Text

/-- Tokens spell an expression of a rank that has few enough brackets and comes to an outcome, which is a
value or a fault. -/
def ComputesTo (lookup : ConstantLookup) (room rank : Nat) (ts : List Token)
    (outcome : Except EvaluationFault Value) : Prop :=
  ∃ e named, Spells (.ranked rank e) ts named ∧ e.nesting ≤ room ∧ e.value lookup = outcome

/-- A list of tokens in parentheses. -/
def Parenthesized (ts us : List Token) : Prop :=
  ∃ o c : Token, o.isPunct "(" = true ∧ c.isPunct ")" = true ∧ us = o :: ts ++ [c]

theorem Parenthesized.spells {ts us : List Token} (h : Parenthesized ts us) {e : Expression}
    (he : e.SpelledBy ts) : Spells (.ranked 0 (.group e)) us false := by
  obtain ⟨o, c, ho, hc, rfl⟩ := h
  obtain ⟨named, hspells⟩ := he
  have hkind := Token.kind_of_isPunct ho
  have hword : o.word = "(" := (Token.word_of_text (Token.text_of_isPunct ho)).trans (by decide)
  have hliteral : o.literal? = none := Token.literal?_eq_none.mpr (by simp [hkind, hword])
  have hfollows : c.follows named := fun _ => by simp [Token.namesConstant, Token.kind_of_isPunct hc]
  exact .group hliteral (Token.text_of_isPunct ho) hspells (Token.text_of_isPunct hc) hfollows

/-- A sign between two operands is the operator that it spells. -/
theorem Token.binaryOp?_of_isPunct {t : Token} {op : BinaryOp} (h : t.isPunct op.spelling = true) :
    t.binaryOp? = some op := by
  rw [binaryOp?, word_of_text (text_of_isPunct h)]
  cases op <;> decide

namespace ComputesTo

variable {lookup : ConstantLookup} {room rank : Nat} {ts us : List Token}
  {outcome : Except EvaluationFault Value} {v w : Value}

theorem evaluate_eq (h : ComputesTo lookup room rank ts outcome) (hrank : rank ≤ 9) :
    evaluate lookup room ts = outcome := by
  obtain ⟨e, named, hspells, hroom, rfl⟩ := h
  exact Expression.SpelledBy.evaluate_eq ⟨named, hspells.loosen hrank⟩ hroom lookup

theorem loosen {rank' : Nat} (h : ComputesTo lookup room rank ts outcome) (hle : rank ≤ rank') :
    ComputesTo lookup room rank' ts outcome := by
  obtain ⟨e, named, hspells, hroom, hvalue⟩ := h
  exact ⟨e, named, hspells.loosen hle, hroom, hvalue⟩

theorem widen {room' : Nat} (h : ComputesTo lookup room rank ts outcome) (hle : room ≤ room') :
    ComputesTo lookup room' rank ts outcome := by
  obtain ⟨e, named, hspells, hroom, hvalue⟩ := h
  exact ⟨e, named, hspells, Nat.le_trans hroom hle, hvalue⟩

/-- The name of a constant has its value, whichever that is. -/
theorem reference {t : Token} {names : List Token} (hbegins : t.beginsName names)
    (hnames : ∀ n ∈ names, n.namesConstant = true)
    (hlookup : lookup (Token.spelling (t :: names)) = some v) :
    ComputesTo lookup room 0 (t :: names) (.ok v) := by
  refine ⟨_, _, .reference hbegins hnames, Nat.zero_le room, ?_⟩
  simp only [Expression.value, hlookup]

/-- An operator between operands that have values is applied to these. -/
theorem binary {t : Token} (op : BinaryOp) (hop : t.isPunct op.spelling = true)
    (hl : ComputesTo lookup room op.rank ts (.ok v))
    (hr : ComputesTo lookup room (op.rank - 1) us (.ok w)) :
    ComputesTo lookup room op.rank (ts ++ t :: us) (op.apply v w) := by
  obtain ⟨left, named, hleft, hlroom, hlvalue⟩ := hl
  obtain ⟨right, named', hright, hrroom, hrvalue⟩ := hr
  have hplain : t.follows named := fun _ => by simp [Token.namesConstant, Token.kind_of_isPunct hop]
  have hrank : op.rank = op.rank - 1 + 1 := by cases op <;> rfl
  rw [hrank] at hleft ⊢
  refine ⟨.binary op left right, named',
    .binary (Token.binaryOp?_of_isPunct hop) hrank hleft hplain hright,
    Nat.max_le.mpr ⟨hlroom, hrroom⟩, ?_⟩
  simp only [Expression.value, hlvalue, hrvalue]
  rfl

end ComputesTo

/-- Tokens that have a value have it in parentheses, too, where they need room for one more bracket. -/
theorem Parenthesized.computesTo {lookup : ConstantLookup} {room : Nat} {ts us : List Token} {v : Value}
    (h : Parenthesized ts us) (hv : evaluate lookup room ts = .ok v) :
    ComputesTo lookup (room + 1) 0 us (.ok v) := by
  obtain ⟨e, hspelled, hroom, hvalue⟩ := exists_spelledBy_of_evaluate hv
  exact ⟨.group e, false, h.spells hspelled, Nat.succ_le_succ hroom, hvalue⟩

end Reflection
