import Reflection.Constant.Parser
import Reflection.Token.Stream

/-!
# The grammar of constant expressions

The token lists that spell an expression, by ranks of operators: the operators of a rank group to the
left, and their operands are joined by operators of lower ranks. The grammar says nothing of how an
expression is read. A token is an operator or a bracket wherever its text is one, whatever its kind; a
literal and the name of a constant are what is left.

## Main definitions

* `Expression.nesting`: the number of brackets that are open at once.
* `Phrase`, `Spells`: the grammar.
-/
namespace Reflection

open Reflection.Text

mutual

/-- The greatest number of brackets that are open at once in an expression. -/
def Expression.nesting : Expression → Nat
  | .word _ | .number _ | .string _ _ | .reference _ _ => 0
  | .group inner => inner.nesting + 1
  | .unary _ _ operand => operand.nesting
  | .binary _ left right => max left.nesting right.nesting
  | .array elements => ArrayElement.nestingOf elements + 1

/-- The greatest number of brackets that are open at once in one of the elements of an array. -/
def ArrayElement.nestingOf : List ArrayElement → Nat
  | [] => 0
  | .positional value :: rest => max value.nesting (ArrayElement.nestingOf rest)
  | .keyed key value :: rest =>
    max (max key.nesting value.nesting) (ArrayElement.nestingOf rest)

end

namespace Token

/-- The literal that a token spells by itself. -/
def literal? (t : Token) : Option Expression :=
  if t.kind = .numberLiteral then some (.number t.text)
  else if t.kind = .stringLiteral then some (.string t.text t.line)
  else if t.word = "null" then some (.word .null)
  else if t.word = "true" then some (.word (.bool true))
  else if t.word = "false" then some (.word (.bool false))
  else none

/-- The token begins the name of a constant when it stands before `rest`: it is part of such a name
or a word for the enclosing structure, and nothing else. -/
def beginsName (t : Token) (rest : List Token) : Prop :=
  t.unaryOp? = none ∧ t.literal? = none ∧ t.text ≠ "(" ∧ t.text ≠ "[" ∧
    ¬ (t.word = "array" ∧ startsWith rest "(" = true) ∧
    (t.namesConstant = true ∨ isSelfWord t.word = true)

/-- The token may follow a spelling. The name of a constant is as long as it can be, so where a
spelling ends in one no further part of a name follows. -/
def follows (t : Token) (afterName : Bool) : Prop := afterName = true → t.namesConstant = false

end Token

/-- What tokens can spell: an expression whose operators outside brackets have a rank of at most
`rank`, an element of an array, or the elements of an array with a closing bracket. -/
inductive Phrase
  | ranked (rank : Nat) (e : Expression)
  | element (el : ArrayElement)
  | elements (closing : String) (els : List ArrayElement)

/-- The tokens that spell a phrase. The last argument tells whether they end in the name of a
constant. -/
inductive Spells : Phrase → List Token → Bool → Prop
  | literal {t : Token} {e : Expression} (hunary : t.unaryOp? = none) (he : t.literal? = some e) :
      Spells (.ranked 0 e) [t] false
  | reference {t : Token} {names : List Token} (hbegins : t.beginsName names)
      (hnames : ∀ n ∈ names, n.namesConstant = true) :
      Spells (.ranked 0 (.reference (Token.spelling (t :: names)) t.line)) (t :: names) true
  | member {t colons m : Token} {names : List Token} (hbegins : t.beginsName names)
      (hnames : ∀ n ∈ names, n.namesConstant = true)
      (hself : Token.isSelfWord (lower (Token.spelling (t :: names))) = true)
      (hcolons : colons.text = "::") (hfollows : colons.follows true) :
      Spells
        (.ranked 0
          (.reference (lower (Token.spelling (t :: names)) ++ "::" ++ m.text) t.line))
        (t :: names ++ [colons, m]) false
  | group {o c : Token} {e : Expression} {ts : List Token} {named : Bool}
      (hliteral : o.literal? = none) (ho : o.text = "(")
      (he : Spells (.ranked 9 e) ts named) (hc : c.text = ")") (hfollows : c.follows named) :
      Spells (.ranked 0 (.group e)) (o :: ts ++ [c]) false
  | list {o c : Token} {els : List ArrayElement} {ts : List Token} {named : Bool}
      (hliteral : o.literal? = none) (ho : o.text = "[")
      (hels : Spells (.elements "]" els) ts named) (hc : c.word = "]")
      (hfollows : c.follows named) : Spells (.ranked 0 (.array els)) (o :: ts ++ [c]) false
  | array {a o c : Token} {els : List ArrayElement} {ts : List Token} {named : Bool}
      (hliteral : a.literal? = none) (ha : a.word = "array") (ho : o.word = "(")
      (hels : Spells (.elements ")" els) ts named) (hc : c.word = ")")
      (hfollows : c.follows named) : Spells (.ranked 0 (.array els)) (a :: o :: ts ++ [c]) false
  | unary {t : Token} {op : UnaryOp} {e : Expression} {ts : List Token} {named : Bool}
      (hop : t.unaryOp? = some op) (he : Spells (.ranked 0 e) ts named) :
      Spells (.ranked 0 (.unary op t.line e)) (t :: ts) named
  | binary {t : Token} {op : BinaryOp} {rank : Nat} {left right : Expression}
      {ts us : List Token} {named named' : Bool} (hop : t.binaryOp? = some op)
      (hrank : op.rank = rank + 1) (hleft : Spells (.ranked (rank + 1) left) ts named)
      (hfollows : t.follows named) (hright : Spells (.ranked rank right) us named') :
      Spells (.ranked (rank + 1) (.binary op left right)) (ts ++ t :: us) named'
  | looser {rank : Nat} {e : Expression} {ts : List Token} {named : Bool}
      (he : Spells (.ranked rank e) ts named) : Spells (.ranked (rank + 1) e) ts named
  | positional {e : Expression} {ts : List Token} {named : Bool}
      (he : Spells (.ranked 9 e) ts named) : Spells (.element (.positional e)) ts named
  | keyed {arrow : Token} {key value : Expression} {ts us : List Token} {named named' : Bool}
      (hkey : Spells (.ranked 9 key) ts named) (harrow : arrow.word = "=>")
      (hfollows : arrow.follows named) (hvalue : Spells (.ranked 9 value) us named') :
      Spells (.element (.keyed key value)) (ts ++ arrow :: us) named'
  | empty (closing : String) : Spells (.elements closing []) [] false
  | last {closing : String} {el : ArrayElement} {ts : List Token} {named : Bool}
      (hstart : Token.startsWith ts closing = false) (hel : Spells (.element el) ts named) :
      Spells (.elements closing [el]) ts named
  | more {closing : String} {comma : Token} {el : ArrayElement} {els : List ArrayElement}
      {ts us : List Token} {named named' : Bool} (hstart : Token.startsWith ts closing = false)
      (hel : Spells (.element el) ts named) (hcomma : comma.word = ",")
      (hfollows : comma.follows named) (hels : Spells (.elements closing els) us named') :
      Spells (.elements closing (el :: els)) (ts ++ comma :: us) named'

/-- An expression of some rank is one of every higher rank. -/
theorem Spells.loosen {rank rank' : Nat} {e : Expression} {ts : List Token} {named : Bool}
    (h : Spells (.ranked rank e) ts named) (hle : rank ≤ rank') : Spells (.ranked rank' e) ts named := by
  induction hle with
  | refl => exact h
  | step _ ih => exact ih.looser

end Reflection
