import Reflection.Constant.NumberLiteral
import Reflection.Constant.Operator
import Reflection.Constant.StringLiteral
import Reflection.Token

/-!
# Constant expressions

An expression is a tree of literals, references to constants, groups, operators and arrays. Its
value is computed from the values of its parts, from left to right; both operands of an operator
are always evaluated.

## Main definitions

* `Expression`, `ArrayElement`.
* `Expression.value`: the value of an expression, given the values of constants.
-/
namespace Reflection

mutual

/-- Constant expressions. Literals keep their text, and what may fail keeps its line. -/
inductive Expression
  | word (v : Value)
  | number (text : String)
  | string (text : String) (line : Int)
  | reference (name : String) (line : Int)
  | group (inner : Expression)
  | unary (op : UnaryOp) (line : Int) (operand : Expression)
  | binary (op : BinaryOp) (left right : Expression)
  | array (elements : List ArrayElement)

/-- Elements of an array, with or without a key. -/
inductive ArrayElement
  | positional (value : Expression)
  | keyed (key value : Expression)

end

instance : Inhabited Expression := ⟨.word .null⟩

/-- Values of constants by name. -/
abbrev ConstantLookup := String → Option Value

/-- The list or map that the evaluated elements of an array make: a map as soon as one element has a
key. -/
def Value.arrayOf (elements : List (Option Value × Value)) : Except EvaluationFault Value :=
  if elements.any (·.1.isSome) then Value.mapOf elements
  else .ok (.list (elements.map Prod.snd))

mutual

/-- Value of an expression. -/
def Expression.value (lookup : ConstantLookup) : Expression → Except EvaluationFault Value
  | .word v => .ok v
  | .number text => parseNumber text
  | .string text line => (parseString text line).map .text
  | .reference name line =>
    match lookup name with
    | some v => .ok v
    | none => .error (.unsupported (.unknownConstant name) line)
  | .group inner => inner.value lookup
  | .unary op line operand => do op.apply line (← operand.value lookup)
  | .binary op left right => do
    let l ← left.value lookup
    let r ← right.value lookup
    op.apply l r
  | .array elements => do Value.arrayOf (← ArrayElement.values lookup elements)

/-- Keys and values of the elements of an array. -/
def ArrayElement.values (lookup : ConstantLookup) :
    List ArrayElement → Except EvaluationFault (List (Option Value × Value))
  | [] => .ok []
  | .positional value :: rest => do
    let v ← value.value lookup
    return (none, v) :: (← ArrayElement.values lookup rest)
  | .keyed key value :: rest => do
    let k ← key.value lookup
    let v ← value.value lookup
    return (some k, v) :: (← ArrayElement.values lookup rest)

end

end Reflection
