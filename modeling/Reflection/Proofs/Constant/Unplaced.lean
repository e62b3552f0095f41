import Mathlib.Tactic.Common
import Reflection.Constant.Parser
import Reflection.Proofs.Report
import Reflection.Proofs.Token.Unplaced

/-!
# Values without places

The value of an expression depends on the kinds and texts of its tokens. Their lines are copied into the
expression and into what is reported of it, and nowhere else: the same tokens at other places have the
same value, or a fault that differs at most by its line.

## Main definitions

* `Expression.unplaced`, `Broken.unplaced`, `EvaluationFault.unplaced`: the same without lines.
* `Echoes`: two readings of the same tokens at different places.

## Main statements

* `echoes_readBinary`: expressions are read alike at different places.
* `evaluate_unplaced`: and they have the same value.
-/
namespace Reflection

open Reflection.Text Token

/-! ## Expressions without lines -/

mutual

/-- The expression without lines. -/
def Expression.unplaced : Expression → Expression
  | .word v => .word v
  | .number text => .number text
  | .string text _ => .string text (-1)
  | .reference name _ => .reference name (-1)
  | .group inner => .group inner.unplaced
  | .unary op _ operand => .unary op (-1) operand.unplaced
  | .binary op left right => .binary op left.unplaced right.unplaced
  | .array elements => .array (ArrayElement.unplacedOf elements)

/-- The elements of an array without lines. -/
def ArrayElement.unplacedOf : List ArrayElement → List ArrayElement
  | [] => []
  | .positional value :: rest => .positional value.unplaced :: ArrayElement.unplacedOf rest
  | .keyed key value :: rest => .keyed key.unplaced value.unplaced :: ArrayElement.unplacedOf rest

end

/-- The break without lines. -/
def Broken.unplaced (b : Broken) : Broken := ⟨b.before.map Expression.unplaced, b.cause, -1⟩

/-- The fault without its line. -/
def EvaluationFault.unplaced : EvaluationFault → EvaluationFault
  | .unsupported cause _ => .unsupported cause (-1)
  | fault => fault

/-! ## Values -/

/-- Two evaluations that come to the same but for the lines of faults. -/
def SameValue {α : Type} (x y : Except EvaluationFault α) : Prop :=
  y.mapError EvaluationFault.unplaced = x.mapError EvaluationFault.unplaced

namespace SameValue

variable {α β : Type} {x y : Except EvaluationFault α}

theorem refl (x : Except EvaluationFault α) : SameValue x x := Eq.refl _

theorem bind {f g : α → Except EvaluationFault β} (h : SameValue x y)
    (hstep : ∀ a, SameValue (f a) (g a)) : SameValue (x >>= f) (y >>= g) := by
  cases x with
  | ok a =>
    cases y with
    | ok b =>
      cases h
      exact hstep a
    | error fault => cases h
  | error fault =>
    cases y with
    | ok b => cases h
    | error fault' =>
      have hfault : fault'.unplaced = fault.unplaced := Except.error.inj h
      exact congrArg Except.error hfault

theorem map (f : α → β) (h : SameValue x y) : SameValue (x.map f) (y.map f) := by
  have hbind : SameValue (x >>= fun a => .ok (f a)) (y >>= fun a => .ok (f a)) :=
    h.bind fun a => .refl (.ok (f a))
  cases x <;> cases y <;> exact hbind

end SameValue

theorem sameValue_decodeDouble (line line' : Int) (body : List Char) :
    SameValue (decodeDouble line body) (decodeDouble line' body) := by
  unfold decodeDouble
  split
  · rfl
  · exact .refl _

theorem sameValue_parseString (text : String) (line line' : Int) :
    SameValue (parseString text line) (parseString text line') := by
  unfold parseString
  dsimp only
  split
  · exact .refl _
  · exact sameValue_decodeDouble line line' _
  · split
    · exact .refl _
    · exact sameValue_decodeDouble line line' _
  · rfl

theorem UnaryOp.sameValue_apply (op : UnaryOp) (line line' : Int) (operand : Value) :
    SameValue (op.apply line operand) (op.apply line' operand) := by
  unfold UnaryOp.apply
  split <;> rfl

variable (lookup : ConstantLookup)

mutual

/-- An expression without lines has the value of the expression. -/
theorem Expression.sameValue_unplaced (e : Expression) :
    SameValue (e.value lookup) (e.unplaced.value lookup) := by
  cases e with
  | word v => exact .refl _
  | number text => exact .refl _
  | string text line => exact (sameValue_parseString text line (-1)).map Value.text
  | reference name line =>
    simp only [Expression.unplaced, Expression.value]
    cases lookup name with
    | some v => exact .refl _
    | none => rfl
  | group inner =>
    simp only [Expression.unplaced, Expression.value]
    exact inner.sameValue_unplaced
  | unary op line operand =>
    simp only [Expression.unplaced, Expression.value]
    exact operand.sameValue_unplaced.bind fun v => op.sameValue_apply line (-1) v
  | binary op left right =>
    simp only [Expression.unplaced, Expression.value]
    exact left.sameValue_unplaced.bind fun l =>
      right.sameValue_unplaced.bind fun r => .refl (op.apply l r)
  | array elements =>
    simp only [Expression.unplaced, Expression.value]
    exact (ArrayElement.sameValue_unplacedOf elements).bind fun values => .refl _

/-- The elements of an array without lines have the values of the elements. -/
theorem ArrayElement.sameValue_unplacedOf (elements : List ArrayElement) :
    SameValue (ArrayElement.values lookup elements)
      (ArrayElement.values lookup (ArrayElement.unplacedOf elements)) := by
  match elements with
  | [] => exact .refl _
  | .positional value :: rest =>
    simp only [ArrayElement.unplacedOf, ArrayElement.values]
    exact value.sameValue_unplaced.bind fun v =>
      (ArrayElement.sameValue_unplacedOf rest).bind fun values => .refl _
  | .keyed key value :: rest =>
    simp only [ArrayElement.unplacedOf, ArrayElement.values]
    exact key.sameValue_unplaced.bind fun k => value.sameValue_unplaced.bind fun v =>
      (ArrayElement.sameValue_unplacedOf rest).bind fun values => .refl _

end

/-! ## Reading -/

/-- Two readings of the same tokens at different places: both break off at the same token, or both
succeed with the same result, which `f` strips of lines, and the same tokens after it. -/
def Echoes {α : Type} {m n : Nat} (f : α → α) :
    Except Broken (Reading α m) → Except Broken (Reading α n) → Prop
  | .ok read, .ok read' => read'.result = f read.result ∧ read'.left = read.left.map Token.unplaced
  | .error b, .error b' => b' = b.unplaced
  | _, _ => False

theorem Echoes.cases {α : Type} {m n : Nat} {f : α → α} {x : Except Broken (Reading α m)}
    {y : Except Broken (Reading α n)} (h : Echoes f x y) :
    (∃ b, x = .error b ∧ y = .error b.unplaced) ∨
      ∃ a left hlt hlt', x = .ok ⟨a, left, hlt⟩ ∧ y = .ok ⟨f a, left.map Token.unplaced, hlt'⟩ := by
  cases x with
  | error b =>
    cases y with
    | error b' => exact .inl ⟨b, rfl, congrArg Except.error h⟩
    | ok read => exact h.elim
  | ok read =>
    cases y with
    | error b => exact h.elim
    | ok read' =>
      obtain ⟨a, left, hlt⟩ := read
      obtain ⟨a', left', hlt'⟩ := read'
      obtain ⟨rfl, rfl⟩ := h
      exact .inr ⟨a, left, hlt, hlt', rfl, rfl⟩

/-- Readings that choose alike are alike if the chosen ones are. -/
theorem Echoes.ite {α : Type} {m n : Nat} {f : α → α} {p p' : Prop} [Decidable p] [Decidable p']
    {x y : Except Broken (Reading α m)} {x' y' : Except Broken (Reading α n)} (hiff : p' ↔ p)
    (hx : p → Echoes f x x') (hy : ¬p → Echoes f y y') :
    Echoes f (if p then x else y) (if p' then x' else y') := by
  by_cases hp : p
  · rw [if_pos hp, if_pos (hiff.mpr hp)]
    exact hx hp
  · rw [if_neg hp, if_neg (mt hiff.mp hp)]
    exact hy hp

/-- The context of a reading without lines. -/
def ReadContext.unplaced : ReadContext := ⟨-1⟩

variable (ctx : ReadContext)

/-- A reference is read alike. -/
theorem echoes_readReference (t : Token) (rest : List Token) :
    Echoes Expression.unplaced (readReference ctx t rest)
      (readReference .unplaced t.unplaced (rest.map Token.unplaced)) := by
  have htake : ((rest.map Token.unplaced).takeWhile namesConstant).map Token.text =
      (rest.takeWhile namesConstant).map Token.text := by
    rw [List.takeWhile_map, List.map_map]
    rfl
  have hdrop : (rest.map Token.unplaced).dropWhile namesConstant =
      (rest.dropWhile namesConstant).map Token.unplaced := by
    rw [List.dropWhile_map]
    rfl
  unfold readReference
  rw [htake]
  generalize String.join ((rest.takeWhile namesConstant).map Token.text) = name
  dsimp only [text_unplaced]
  generalize_proofs hleft hnil hself hother hleft'
  revert hleft hleft'
  rw [hdrop]
  generalize rest.dropWhile namesConstant = after
  intro hleft hleft'
  cases after with
  | nil => exact ⟨rfl, rfl⟩
  | cons c tail =>
    revert hleft'
    rw [List.map_cons]
    intro hleft'
    dsimp only
    by_cases hself : c.text = "::" ∧ isSelfWord (lower (t.text ++ name)) = true
    · have hself' : c.unplaced.text = "::" ∧ isSelfWord (lower (t.text ++ name)) = true := hself
      rw [if_pos hself, if_pos hself']
      cases tail with
      | nil => rfl
      | cons m tail => exact ⟨rfl, rfl⟩
    · have hself' : ¬(c.unplaced.text = "::" ∧ isSelfWord (lower (t.text ++ name)) = true) := hself
      rw [if_neg hself, if_neg hself']
      by_cases hcall : c.text = "(" ∨ c.text = "::"
      · have hcall' : c.unplaced.text = "(" ∨ c.unplaced.text = "::" := hcall
        rw [if_pos hcall, if_pos hcall']
        rfl
      · have hcall' : ¬(c.unplaced.text = "(" ∨ c.unplaced.text = "::") := hcall
        rw [if_neg hcall, if_neg hcall']
        exact ⟨rfl, rfl⟩

mutual

/-- Operands and operators up to a rank are read alike. -/
theorem echoes_readBinary (room rank : Nat) (ts : List Token) :
    Echoes Expression.unplaced (readBinary ctx room rank ts)
      (readBinary .unplaced room rank (ts.map Token.unplaced)) := by
  cases rank with
  | zero =>
    rw [readBinary, readBinary]
    exact echoes_readUnary room ts
  | succ rank =>
    rw [readBinary, readBinary]
    obtain ⟨b, hread, hread'⟩ | ⟨operand, left, hlt, hlt', hread, hread'⟩ :=
      (echoes_readBinary room rank ts).cases
    · rw [hread, hread']
      rfl
    · rw [hread, hread']
      dsimp only
      obtain ⟨b, hmore, hmore'⟩ | ⟨e, left', hlt₂, hlt₂', hmore, hmore'⟩ :=
        (echoes_readOperators room rank operand left).cases
      · rw [hmore, hmore']
        rfl
      · rw [hmore, hmore']
        exact ⟨rfl, rfl⟩
termination_by (ts.length, rank + 2)

/-- The operators after an operand are read alike. -/
theorem echoes_readOperators (room rank : Nat) (operand : Expression) (ts : List Token) :
    Echoes Expression.unplaced (readOperators ctx room rank operand ts)
      (readOperators .unplaced room rank operand.unplaced (ts.map Token.unplaced)) := by
  match ts with
  | [] =>
    rw [List.map_nil, readOperators, readOperators]
    exact ⟨rfl, rfl⟩
  | t :: rest =>
    have hop : t.unplaced.binaryOp? = t.binaryOp? := rfl
    rw [List.map_cons, readOperators, readOperators, hop]
    cases t.binaryOp?.filter (·.rank == rank + 1) with
    | none => exact ⟨rfl, rfl⟩
    | some op =>
      dsimp only
      obtain ⟨b, hread, hread'⟩ | ⟨right, left, hlt, hlt', hread, hread'⟩ :=
        (echoes_readBinary room rank rest).cases
      · rw [hread, hread']
        rfl
      · rw [hread, hread']
        dsimp only
        obtain ⟨b, hmore, hmore'⟩ | ⟨e, left', hlt₂, hlt₂', hmore, hmore'⟩ :=
          (echoes_readOperators room rank (.binary op operand right) left).cases
        · rw [Expression.unplaced] at hmore'
          rw [hmore, hmore']
          rfl
        · rw [Expression.unplaced] at hmore'
          rw [hmore, hmore']
          exact ⟨rfl, rfl⟩
termination_by (ts.length, 0)

/-- An operand with the operators before it is read alike. -/
theorem echoes_readUnary (room : Nat) (ts : List Token) :
    Echoes Expression.unplaced (readUnary ctx room ts)
      (readUnary .unplaced room (ts.map Token.unplaced)) := by
  match ts with
  | [] =>
    rw [List.map_nil, readUnary, readUnary]
    rfl
  | t :: rest =>
    have hop : t.unplaced.unaryOp? = t.unaryOp? := rfl
    rw [List.map_cons, readUnary, readUnary, hop]
    cases t.unaryOp? with
    | some op =>
      dsimp only
      obtain ⟨b, hread, hread'⟩ | ⟨operand, left, hlt, hlt', hread, hread'⟩ :=
        (echoes_readUnary room rest).cases
      · rw [hread, hread']
        rfl
      · rw [hread, hread']
        exact ⟨rfl, rfl⟩
    | none => exact echoes_readPrimary room t rest
termination_by (ts.length, 1)

/-- An operand that starts with a token is read alike. -/
theorem echoes_readPrimary (room : Nat) (t : Token) (rest : List Token) :
    Echoes Expression.unplaced (readPrimary ctx room t rest)
      (readPrimary .unplaced room t.unplaced (rest.map Token.unplaced)) := by
  have hstarts : startsWith (rest.map Token.unplaced) "(" = startsWith rest "(" := by
    cases rest <;> rfl
  rw [readPrimary.eq_def, readPrimary.eq_def]
  refine .ite .rfl (fun _ => ⟨rfl, rfl⟩) fun _ => ?_
  refine .ite .rfl (fun _ => ⟨rfl, rfl⟩) fun _ => ?_
  refine .ite .rfl (fun _ => ⟨rfl, rfl⟩) fun _ => ?_
  refine .ite .rfl (fun _ => ⟨rfl, rfl⟩) fun _ => ?_
  refine .ite .rfl (fun _ => ⟨rfl, rfl⟩) fun _ => ?_
  refine .ite .rfl (fun _ => ?_) fun _ => .ite .rfl (fun _ => ?_) fun _ =>
    .ite (by rw [hstarts]; rfl) (fun _ => ?_) fun _ => .ite .rfl (fun _ => ?_) fun _ => ?_
  · cases room with
    | zero => rfl
    | succ room =>
      dsimp only
      obtain ⟨b, hread, hread'⟩ | ⟨inner, left, hlt, hlt', hread, hread'⟩ :=
        (echoes_readBinary room 9 rest).cases
      · rw [hread, hread']
        rfl
      · rw [hread, hread']
        cases left with
        | nil => rfl
        | cons c left =>
          by_cases hclosing : c.text = ")"
          · simp only [List.map_cons, text_unplaced, hclosing, if_true]
            exact ⟨rfl, rfl⟩
          · simp only [List.map_cons, text_unplaced, hclosing, if_false]
            rfl
  · cases room with
    | zero => rfl
    | succ room =>
      dsimp only
      obtain ⟨b, hread, hread'⟩ | ⟨elements, left, hlt, hlt', hread, hread'⟩ :=
        (echoes_readElements room "]" rest).cases
      · rw [hread, hread']
        rfl
      · rw [hread, hread']
        exact ⟨rfl, rfl⟩
  · match room, rest with
    | 0, _ => rfl
    | _ + 1, [] => rfl
    | room + 1, o :: rest =>
      obtain ⟨b, hread, hread'⟩ | ⟨elements, left, hlt, hlt', hread, hread'⟩ :=
        (echoes_readElements room ")" rest).cases
      · dsimp only [List.map]
        rw [hread, hread']
        rfl
      · dsimp only [List.map]
        rw [hread, hread']
        exact ⟨rfl, rfl⟩
  · exact echoes_readReference ctx t rest
  · rfl
termination_by (rest.length + 1, 0)

/-- The elements of an array are read alike. -/
theorem echoes_readElements (room : Nat) (closing : String) (ts : List Token) :
    Echoes ArrayElement.unplacedOf (readElements ctx room closing ts)
      (readElements .unplaced room closing (ts.map Token.unplaced)) := by
  match ts with
  | [] =>
    rw [List.map_nil, readElements, readElements]
    rfl
  | t :: rest =>
    have hword : t.unplaced.word = t.word := rfl
    rw [List.map_cons, readElements, readElements, hword]
    split_ifs with hclosing
    · exact ⟨rfl, rfl⟩
    · obtain ⟨b, hread, hread'⟩ | ⟨first, left, hlt, hlt', hread, hread'⟩ :=
        (echoes_readBinary room 9 (t :: rest)).cases
      · change readBinary _ room 9 (t.unplaced :: rest.map Token.unplaced) = _ at hread'
        rw [hread, hread']
        rfl
      · have hstarts : startsWith (left.map Token.unplaced) "=>" = startsWith left "=>" := by
          cases left <;> rfl
        have htail : (left.map Token.unplaced).tail = left.tail.map Token.unplaced := by
          cases left <;> rfl
        change readBinary _ room 9 (t.unplaced :: rest.map Token.unplaced) = _ at hread'
        rw [hread, hread']
        dsimp only
        rw [hstarts]
        split_ifs with hkeyed
        · have htailLength : left.length - 1 < rest.length + 1 := by
            simp only [List.length_cons] at hlt
            omega
          have hvalues : Echoes Expression.unplaced (readBinary ctx room 9 left.tail)
              (readBinary .unplaced room 9 (left.map Token.unplaced).tail) := by
            rw [htail]
            exact echoes_readBinary room 9 left.tail
          obtain ⟨b, hvalue, hvalue'⟩ | ⟨value, left', hlt₁, hlt₁', hvalue, hvalue'⟩ := hvalues.cases
          · rw [hvalue, hvalue']
            rfl
          · rw [hvalue, hvalue']
            dsimp only
            have hleft' : left'.length < (t :: rest).length := by
              simp only [List.length_tail] at hlt₁
              omega
            obtain ⟨b, hmore, hmore'⟩ | ⟨elements, left'', hlt₂, hlt₂', hmore, hmore'⟩ :=
              (echoes_readSeparator room closing left').cases
            · rw [hmore, hmore']
              rfl
            · rw [hmore, hmore']
              exact ⟨rfl, rfl⟩
        · obtain ⟨b, hmore, hmore'⟩ | ⟨elements, left', hlt₂, hlt₂', hmore, hmore'⟩ :=
            (echoes_readSeparator room closing left).cases
          · rw [hmore, hmore']
            rfl
          · rw [hmore, hmore']
            exact ⟨rfl, rfl⟩
termination_by (ts.length, 12)

/-- What follows an element is read alike. -/
theorem echoes_readSeparator (room : Nat) (closing : String) (ts : List Token) :
    Echoes ArrayElement.unplacedOf (readSeparator ctx room closing ts)
      (readSeparator .unplaced room closing (ts.map Token.unplaced)) := by
  match ts with
  | [] =>
    rw [List.map_nil, readSeparator, readSeparator]
    rfl
  | t :: rest =>
    have hword : t.unplaced.word = t.word := rfl
    rw [List.map_cons, readSeparator, readSeparator, hword]
    split_ifs
    · obtain ⟨b, hread, hread'⟩ | ⟨elements, left, hlt, hlt', hread, hread'⟩ :=
        (echoes_readElements room closing rest).cases
      · rw [hread, hread']
        rfl
      · rw [hread, hread']
        exact ⟨rfl, rfl⟩
    · exact ⟨rfl, rfl⟩
    · rfl
termination_by (ts.length, 0)

end

/-- The expression of tokens elsewhere is the expression of the tokens, without lines. -/
theorem ofTokens_unplaced (room : Nat) (ts : List Token) :
    Expression.ofTokens room (ts.map Token.unplaced) =
      ((Expression.ofTokens room ts).map Expression.unplaced).mapError Broken.unplaced := by
  unfold Expression.ofTokens
  rw [List.getLast?_map]
  cases ts.getLast? with
  | none => rfl
  | some last =>
    obtain ⟨b, hread, hread'⟩ | ⟨e, left, hlt, hlt', hread, hread'⟩ :=
      (echoes_readBinary ⟨last.line⟩ room 9 ts).cases
    · dsimp only [Option.map_some]
      change readBinary ⟨last.unplaced.line⟩ _ _ _ = _ at hread'
      rw [hread, hread']
      rfl
    · dsimp only [Option.map_some]
      change readBinary ⟨last.unplaced.line⟩ _ _ _ = _ at hread'
      rw [hread, hread']
      cases left <;> rfl

theorem sameValues_unplaced (es : List Expression) :
    SameValue (es.mapM (Expression.value lookup))
      ((es.map Expression.unplaced).mapM (Expression.value lookup)) := by
  induction es with
  | nil => exact .refl _
  | cons e es ih =>
    rw [List.map_cons, List.mapM_cons, List.mapM_cons]
    exact (e.sameValue_unplaced lookup).bind fun v => ih.bind fun vs => .refl _

/-- Expressions with the same tokens have the same value, wherever they stand. -/
theorem evaluate_unplaced (room : Nat) (ts : List Token) :
    SameValue (evaluate lookup room ts) (evaluate lookup room (ts.map Token.unplaced)) := by
  rw [evaluate, evaluate, ofTokens_unplaced]
  cases Expression.ofTokens room ts with
  | ok e => exact e.sameValue_unplaced lookup
  | error b =>
    exact (sameValues_unplaced lookup b.before).bind fun values => rfl

end Reflection
