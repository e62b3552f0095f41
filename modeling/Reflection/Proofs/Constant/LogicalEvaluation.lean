import Reflection.Proofs.Constant.Logic

/-!
# Evaluation of logical expressions

The tokens of a logical expression are read as sums of products: the evaluator takes `||` and `or` for
the sums and `&&` and `and` for the products. So the value of the expression that is read has the truth
of the chain in two ranks, operand by operand from left to right.

## Main definitions

* `Expression.IsLiteral`, `Logic.Spelled`: literals, and the tokens of logical expressions.
* `Built`: what is read up to some operand.

## Main statements

* `Logic.Spelled.exists_built`: what is read has the truth of the chain in two ranks.
* `evaluate_logical`: the value of a logical expression, and when it is the language's boolean.
-/
namespace Reflection

open Text

/-! ## Tokens -/

mutual

/-- Literals: words, numbers, texts and arrays of literals. -/
def Expression.IsLiteral : Expression → Prop
  | .word _ | .number _ | .string _ _ => True
  | .array elements => ArrayElement.AreLiterals elements
  | _ => False

/-- The keys and the values of an array are literals. -/
def ArrayElement.AreLiterals : List ArrayElement → Prop
  | [] => True
  | .positional value :: rest => value.IsLiteral ∧ ArrayElement.AreLiterals rest
  | .keyed key value :: rest => key.IsLiteral ∧ value.IsLiteral ∧ ArrayElement.AreLiterals rest

end

/-- The tokens of a logical expression with at most `room` brackets open at once. Its literals have
values. -/
inductive Logic.Spelled (lookup : ConstantLookup) : Nat → Logic Value → List Token → Prop
  | literal {room : Nat} {e : Expression} {v : Value} {ts : List Token} (he : e.IsLiteral)
      (hspells : Spells (.ranked 0 e) ts false) (hroom : e.nesting ≤ room)
      (hvalue : e.value lookup = .ok v) : Spelled lookup room (.literal v) ts
  | not {room : Nat} {t : Token} {e : Logic Value} {ts : List Token}
      (hop : t.unaryOp? = some .not) (hoperand : e.isOperand = true)
      (he : Spelled lookup room e ts) : Spelled lookup room (.not e) (t :: ts)
  | group {room : Nat} {e : Logic Value} {ts us : List Token} (hparens : Parenthesized ts us)
      (he : Spelled lookup room e ts) : Spelled lookup (room + 1) (.group e) us
  | join {room : Nat} {t : Token} {c : Connective} {l r : Logic Value} {ts us : List Token}
      (hop : t.binaryOp? = some c.op) (hoperand : r.isOperand = true)
      (hl : Spelled lookup room l ts) (hr : Spelled lookup room r us) :
      Spelled lookup room (.join l c r) (ts ++ t :: us)

/-! ## What is read -/

theorem Connective.rank_op (c : Connective) : c.op.rank = if c.isOr then 9 else 8 := by
  cases c <;> rfl

theorem Connective.apply_op (c : Connective) (v w : Value) :
    c.op.apply v w =
      .ok (.bool (if c.isOr then v.isTrue || w.isTrue else v.isTrue && w.isTrue)) := by
  cases c <;> rfl

/-- An expression with few enough brackets has a value of a truth. -/
def Expression.HasTruth (lookup : ConstantLookup) (room : Nat) (e : Expression) (b : Bool) : Prop :=
  e.nesting ≤ room ∧ ∃ v, e.value lookup = .ok v ∧ v.isTrue = b

variable {lookup : ConstantLookup} {room : Nat}

/-- Two operands give a boolean. -/
theorem Expression.HasTruth.value_binary {left right : Expression} {a b : Bool}
    (hleft : left.HasTruth lookup room a) (hright : right.HasTruth lookup room b) (c : Connective) :
    (Expression.binary c.op left right).value lookup =
      .ok (.bool (if c.isOr then a || b else a && b)) := by
  obtain ⟨-, v, hv, rfl⟩ := hleft
  obtain ⟨-, w, hw, rfl⟩ := hright
  simp only [Expression.value, hv, hw]
  exact c.apply_op v w

theorem Expression.HasTruth.binary {left right : Expression} {a b : Bool}
    (hleft : left.HasTruth lookup room a) (hright : right.HasTruth lookup room b) (c : Connective) :
    (Expression.binary c.op left right).HasTruth lookup room (if c.isOr then a || b else a && b) :=
  ⟨Nat.max_le.mpr ⟨hleft.1, hright.1⟩, _, hleft.value_binary hright c, rfl⟩

/-- What is read of a chain up to some operand: the product of the operands so far, or the sum of the
parts before the last `||` or `or` with the product after it. -/
inductive Built (lookup : ConstantLookup) (room : Nat) :
    Chain.CoarseStanding → Expression → List Token → Prop
  | product {e : Expression} {b : Bool} {ts : List Token} (hspells : Spells (.ranked 8 e) ts false)
      (htruth : e.HasTruth lookup room b) : Built lookup room ⟨false, b⟩ e ts
  | sum {t : Token} {c : Connective} {left right : Expression} {a b : Bool} {ts us : List Token}
      (hop : t.binaryOp? = some c.op) (hor : c.isOr = true) (hleft : Spells (.ranked 9 left) ts false)
      (hltruth : left.HasTruth lookup room a) (hright : Spells (.ranked 8 right) us false)
      (hrtruth : right.HasTruth lookup room b) :
      Built lookup room ⟨a, b⟩ (.binary c.op left right) (ts ++ t :: us)

namespace Built

variable {s : Chain.CoarseStanding} {e : Expression} {ts : List Token}

theorem spells (h : Built lookup room s e ts) : Spells (.ranked 9 e) ts false := by
  cases h with
  | product hspells htruth => exact hspells.looser
  | sum hop hor hleft hltruth hright hrtruth =>
    exact .binary hop (by rw [Connective.rank_op, hor]; rfl) hleft (follows_false _) hright

theorem hasTruth (h : Built lookup room s e ts) : e.HasTruth lookup room s.truth := by
  cases h with
  | product hspells htruth => exact htruth
  | @sum t c left right a b ts us hop hor hleft hltruth hright hrtruth =>
    have hsum := hltruth.binary hrtruth c
    rwa [if_pos hor] at hsum

/-- One more connective with its operand is read. The value is a boolean. -/
theorem join (h : Built lookup room s e ts) {t : Token} {c : Connective} {operand : Expression}
    {b : Bool} {us : List Token} (hop : t.binaryOp? = some c.op) (hspells : Spells (.ranked 0 operand) us false)
    (htruth : operand.HasTruth lookup room b) :
    ∃ e' b', Built lookup room (s.join c b) e' (ts ++ t :: us) ∧ e'.value lookup = .ok (.bool b') := by
  cases hor : c.isOr with
  | true =>
    have hjoin : s.join c b = ⟨s.truth, b⟩ := if_pos hor
    rw [hjoin]
    exact ⟨_, _, .sum hop hor h.spells h.hasTruth (hspells.loosen (Nat.zero_le _)) htruth,
      h.hasTruth.value_binary htruth c⟩
  | false =>
    -- The operand extends the last product.
    have hjoin : s.join c b = { s with operands := s.operands && b } := if_neg (by simp [hor])
    have hrank : c.op.rank = 7 + 1 := by simp [Connective.rank_op, hor]
    rw [hjoin]
    cases h with
    | product hbefore hbtruth =>
      have hproduct : Spells (.ranked 8 (.binary c.op e operand)) (ts ++ t :: us) false :=
        .binary hop hrank hbefore (follows_false t) (hspells.loosen (Nat.zero_le _))
      exact ⟨_, _, .product hproduct (by simpa [hor] using hbtruth.binary htruth c),
        hbtruth.value_binary htruth c⟩
    | @sum t' d left right a b' ts us' hop' hor' hleft hltruth hright hrtruth =>
      have hproduct : Spells (.ranked 8 (.binary c.op right operand)) (us' ++ t :: us) false :=
        .binary hop hrank hright (follows_false t) (hspells.loosen (Nat.zero_le _))
      have hptruth := hrtruth.binary htruth c
      simp only [hor, Bool.false_eq_true, if_false] at hptruth
      have htokens : (ts ++ t' :: us') ++ t :: us = ts ++ t' :: (us' ++ t :: us) := by simp
      rw [htokens]
      exact ⟨_, _, .sum hop' hor' hleft hltruth hproduct hptruth, hltruth.value_binary hptruth d⟩

end Built

/-- A logical expression is read as an expression with the truth of its chain in two ranks. An operand is
read as one, and an operator gives a boolean. -/
theorem Logic.Spelled.exists_built {e : Logic Value} {ts : List Token} (h : e.Spelled lookup room ts) :
    ∃ built, Built lookup room (e.chain .evaluator).coarseStanding built ts ∧
      (e.isOperand = true → Spells (.ranked 0 built) ts false) ∧
      (e.hasOperator = true → ∃ b, built.value lookup = .ok (.bool b)) := by
  have htruth {e : Logic Value} : (e.chain .evaluator).coarseStanding.truth = e.truth .evaluator :=
    (Chain.inTwoRanks_eq_truth _).symm
  induction h with
  | @literal room e v ts he hspells hroom hvalue =>
    exact ⟨e, .product (hspells.loosen (Nat.zero_le _)) ⟨hroom, v, hvalue, rfl⟩, fun _ => hspells,
      fun h => by cases h⟩
  | @not room t e ts hop hoperand he ih =>
    obtain ⟨built, hbuilt, hspells, -⟩ := ih
    have hnot : Spells (.ranked 0 (.unary .not t.line built)) (t :: ts) false :=
      .unary hop (hspells hoperand)
    obtain ⟨hroom, v, hvalue, htrue⟩ := hbuilt.hasTruth
    have hbool : (Expression.unary .not t.line built).value lookup =
        .ok (.bool (!e.truth .evaluator)) := by
      rw [← htruth, ← htrue]
      simp only [Expression.value, hvalue]
      rfl
    exact ⟨_, .product (hnot.loosen (Nat.zero_le _)) ⟨hroom, _, hbool, rfl⟩, fun _ => hnot,
      fun _ => ⟨_, hbool⟩⟩
  | @group room e ts us hparens he ih =>
    obtain ⟨built, hbuilt, -, hbool⟩ := ih
    have hgroup : Spells (.ranked 0 (.group built)) us false := hparens.spells ⟨_, hbuilt.spells⟩
    obtain ⟨hroom, v, hvalue, htrue⟩ := hbuilt.hasTruth
    exact ⟨_, .product (hgroup.loosen (Nat.zero_le _))
      ⟨Nat.succ_le_succ hroom, v, hvalue, htrue.trans htruth⟩, fun _ => hgroup, hbool⟩
  | @join room t c l r ts us hop hoperand hl hr ihl ihr =>
    obtain ⟨left, hleft, -, -⟩ := ihl
    obtain ⟨right, hright, hspells, -⟩ := ihr
    obtain ⟨built, b, hbuilt, hvalue⟩ := hleft.join hop (hspells hoperand) hright.hasTruth
    rw [htruth] at hbuilt
    exact ⟨built, hbuilt, fun h => (by cases h), fun _ => ⟨b, hvalue⟩⟩

/-- The evaluator gives a boolean for every logical expression with an operator. -/
theorem Logic.Spelled.evaluate_eq {e : Logic Value} {ts : List Token} (h : e.Spelled lookup room ts)
    (hop : e.hasOperator = true) :
    evaluate lookup room ts = .ok (.bool (e.truth .evaluator)) := by
  obtain ⟨built, hbuilt, -, hbool⟩ := h.exists_built
  obtain ⟨b, hb⟩ := hbool hop
  obtain ⟨hroom, v, hvalue, htrue⟩ := hbuilt.hasTruth
  obtain rfl : Value.bool b = v := Except.ok.inj (hb.symm.trans hvalue)
  rw [Expression.SpelledBy.evaluate_eq ⟨_, hbuilt.spells⟩ hroom, hvalue, Logic.truth]
  exact congrArg (Except.ok <| Value.bool ·) (htrue.trans (Chain.inTwoRanks_eq_truth _).symm)

/-! ## Other literals -/

/-- The token of a word or of the text `0`. -/
theorem exists_literal_token (lookup : ConstantLookup) {v : Value}
    (hv : (∃ b, v = .bool b) ∨ v = .text "0") :
    ∃ (t : Token) (e : Expression), e.IsLiteral ∧ Spells (.ranked 0 e) [t] false ∧
      e.nesting = 0 ∧ e.value lookup = .ok v := by
  rcases hv with ⟨b, rfl⟩ | rfl
  · cases b with
    | true => exact ⟨⟨.identifier, "true", 1, 0⟩, .word (.bool true), trivial,
        .literal (by decide) (by rfl), rfl, rfl⟩
    | false => exact ⟨⟨.identifier, "false", 1, 0⟩, .word (.bool false), trivial,
        .literal (by decide) (by rfl), rfl, rfl⟩
  · exact ⟨⟨.stringLiteral, "'0'", 1, 0⟩, .string "'0'" 1, trivial, .literal (by decide) rfl, rfl,
      by rfl⟩

/-- Words and the text `0` can be put for the literals of a spelled expression. -/
theorem Logic.Spelled.exists_of_shape_eq {e e' : Logic Value} {ts : List Token}
    (h : e.Spelled lookup room ts) (hshape : e'.shape = e.shape)
    (hliterals : ∀ v ∈ e'.literals, (∃ b, v = .bool b) ∨ v = .text "0") :
    ∃ ts', e'.Spelled lookup room ts' := by
  induction h generalizing e' with
  | literal he hspells hroom hvalue =>
    cases e' with
    | literal v =>
      obtain ⟨t, e, he, hspells, hnesting, hvalue⟩ :=
        exists_literal_token lookup (hliterals v (List.mem_singleton_self v))
      exact ⟨[t], .literal he hspells (hnesting ▸ Nat.zero_le _) hvalue⟩
    | _ => cases hshape
  | not hop hoperand he ih =>
    cases e' with
    | not inner =>
      have hinner := Logic.not.inj hshape
      obtain ⟨ts', hts'⟩ := ih hinner hliterals
      exact ⟨_, .not hop ((isOperand_eq_of_shape_eq hinner).trans hoperand) hts'⟩
    | _ => cases hshape
  | group hparens he ih =>
    cases e' with
    | group inner =>
      obtain ⟨o, c, ho, hc, -⟩ := hparens
      obtain ⟨ts', hts'⟩ := ih (Logic.group.inj hshape) hliterals
      exact ⟨_, .group ⟨o, c, ho, hc, rfl⟩ hts'⟩
    | _ => cases hshape
  | join hop hoperand hl hr ihl ihr =>
    cases e' with
    | join l' c' r' =>
      obtain ⟨hleft, rfl, hright⟩ := Logic.join.inj hshape
      obtain ⟨hliterals, hliterals'⟩ := List.forall_mem_append.mp hliterals
      obtain ⟨ts', hts'⟩ := ihl hleft hliterals
      obtain ⟨us', hus'⟩ := ihr hright hliterals'
      exact ⟨_, .join hop ((isOperand_eq_of_shape_eq hright).trans hoperand) hts' hus'⟩
    | _ => cases hshape

/-! ## The language's boolean -/

/-- What a logical expression with an operator evaluates to: a boolean, in which words rank with signs
and the text `0` is true. For all literals of a shape other than the text `0` it is the language's
boolean just where no `||` and `and` meet without an `or` between them; and every shape has literals for
which it is not. -/
theorem evaluate_logical {e : Logic Value} {ts : List Token} (h : e.Spelled lookup room ts)
    (hop : e.hasOperator = true) :
    evaluate lookup room ts = .ok (.bool (e.truth .evaluator)) ∧
      ((∀ (e' : Logic Value) (ts' : List Token), e'.shape = e.shape →
          (∀ v ∈ e'.literals, v ≠ .text "0") → e'.Spelled lookup room ts' →
          evaluate lookup room ts' = .ok (.bool (e'.truth .language))) ↔ e.Unmixed) ∧
      ∃ (e' : Logic Value) (ts' : List Token), e'.shape = e.shape ∧ e'.Spelled lookup room ts' ∧
        evaluate lookup room ts' ≠ .ok (.bool (e'.truth .language)) := by
  have heval {e' : Logic Value} {ts' : List Token} (hshape : e'.shape = e.shape)
      (h : e'.Spelled lookup room ts') :
      evaluate lookup room ts' = .ok (.bool (e'.truth .evaluator)) :=
    h.evaluate_eq ((Logic.hasOperator_eq_of_shape_eq hshape).trans hop)
  have hne {e' : Logic Value} (hne : e'.truth .evaluator ≠ e'.truth .language) :
      (.ok (.bool (e'.truth .evaluator)) : Except EvaluationFault Value) ≠
        .ok (.bool (e'.truth .language)) := by
    simpa using hne
  refine ⟨heval rfl h, ⟨fun hall => ?_, fun hunmixed e' ts' hshape hliterals h' => ?_⟩, ?_⟩
  · by_contra hmixed
    obtain ⟨e', hshape, hwords, htold⟩ := Logic.tells_word hmixed
    obtain ⟨ts', hts'⟩ := h.exists_of_shape_eq hshape fun v hv => .inl (hwords v hv)
    refine hne htold ((heval hshape hts').symm.trans (hall e' ts' hshape (fun v hv => ?_) hts'))
    obtain ⟨b, rfl⟩ := hwords v hv
    simp
  · rw [heval hshape h', Logic.truth_eq ((Logic.unmixed_iff_of_shape_eq hshape).mpr hunmixed) hliterals]
  · obtain ⟨e', hshape, hliterals, htold⟩ := e.tells_zero
    obtain ⟨ts', hts'⟩ := h.exists_of_shape_eq hshape hliterals
    exact ⟨e', ts', hshape, hts', by rw [heval hshape hts']; exact hne htold⟩

/-- The expression `true || true and false`, with its tokens. -/
def mixedLogic : Logic Value :=
  .join (.join (.literal (.bool true)) .or (.literal (.bool true))) .andWord (.literal (.bool false))

/-- The tokens of `true || true and false`. -/
def mixedLogicTokens : List Token := [⟨.identifier, "true", 1, 0⟩, ⟨.punctuation, "||", 1, 0⟩,
  ⟨.identifier, "true", 1, 0⟩, ⟨.keyword, "and", 1, 0⟩, ⟨.identifier, "false", 1, 0⟩]

/-- The product is read first, although the language reads `||` before `and`. -/
theorem evaluate_logical_mixed :
    mixedLogic.Spelled (fun _ => none) 0 mixedLogicTokens ∧ mixedLogic.hasOperator = true ∧
      evaluate (fun _ => none) 0 mixedLogicTokens = .ok (.bool true) ∧
      mixedLogic.truth .language = false ∧ ¬ mixedLogic.Unmixed := by
  have hword (text : String) (b : Bool) (hunary : (⟨.identifier, text, 1, 0⟩ : Token).unaryOp? = none)
      (hliteral : (⟨.identifier, text, 1, 0⟩ : Token).literal? = some (.word (.bool b))) :
      (Logic.literal (.bool b)).Spelled (fun _ => none) 0 [⟨.identifier, text, 1, 0⟩] :=
    .literal (e := .word (.bool b)) trivial (.literal hunary hliteral) (Nat.zero_le _) rfl
  have htrue := hword "true" true (by decide) (by rfl)
  have hfalse := hword "false" false (by decide) (by rfl)
  have hspelled : mixedLogic.Spelled (fun _ => none) 0 mixedLogicTokens :=
    .join (t := ⟨.keyword, "and", 1, 0⟩) (by decide) rfl
      (.join (t := ⟨.punctuation, "||", 1, 0⟩) (by decide) rfl htrue htrue) hfalse
  have hlanguage : mixedLogic.truth .language = false := by decide
  obtain ⟨hevaluator, hunmixed, -⟩ := evaluate_logical hspelled rfl
  refine ⟨hspelled, rfl, hevaluator, hlanguage, fun h => ?_⟩
  have hliterals : ∀ v ∈ mixedLogic.literals, v ≠ .text "0" := by simp [mixedLogic, Logic.literals]
  have heq := hunmixed.mpr h mixedLogic mixedLogicTokens rfl hliterals hspelled
  rw [hevaluator, hlanguage] at heq
  cases heq

end Reflection
