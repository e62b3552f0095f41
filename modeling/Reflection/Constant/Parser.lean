import Reflection.Constant.Expression
import Reflection.Text.Case

/-!
# Reading constant expressions

The tokens of an expression are read by the ranks of the operators, the loosest first; operators of
one rank group to the left. Where reading breaks off, the expressions that were complete by then are
kept: they are evaluated first, and what is wrong with them is reported before the break.

## Main definitions

* `Broken`: where and after what reading broke off.
* `Expression.read`: the expression at the start of a list of tokens.
* `Expression.ofTokens`: the expression that a whole list of tokens spells.
-/
namespace Reflection

open Reflection.Text

/-- A break in an expression: what is not supported there, at which line, and the expressions to
evaluate before it is reported. -/
structure Broken where
  before : List Expression
  cause : Unsupported
  line : Int

/-- A break with nothing before it. -/
def Broken.at (cause : Unsupported) (line : Int) : Broken := ⟨[], cause, line⟩

/-- A break that comes after an expression. -/
def Broken.after (e : Expression) (b : Broken) : Broken := { b with before := e :: b.before }

namespace Token

/-- Text of a token in lower case, by which words and operators are told apart. -/
def word (t : Token) : String := lower t.text

/-- Operator that a token spells between operands. -/
def binaryOp? (t : Token) : Option BinaryOp := BinaryOp.ofSpelling? t.word

/-- Operator that a token spells before an operand. -/
def unaryOp? (t : Token) : Option UnaryOp := UnaryOp.ofSpelling? t.word

/-- A token is part of the name of a constant. -/
def namesConstant (t : Token) : Bool := t.kind == .identifier || t.kind == .separator

/-- The words that stand for the structure in which they are written. -/
def isSelfWord (s : String) : Bool := s == "self" || s == "static"

/-- The first token spells a text, in lower case. -/
def startsWith (ts : List Token) (text : String) : Bool := ts.head?.any (·.word == text)

end Token

/-- What is fixed while an expression is read: the line of its last token. -/
structure ReadContext where
  lastLine : Int

/-- What was read and the tokens left, of which there are fewer than `bound`. -/
structure Reading (α : Type) (bound : Nat) where
  result : α
  left : List Token
  shorter : left.length < bound

/-- The reference that starts with a token. Its name is the run of identifiers and separators; after
a word for the enclosing structure a double colon and a member may follow. -/
def readReference (ctx : ReadContext) (first : Token) (rest : List Token) :
    Except Broken (Reading Expression (rest.length + 1)) :=
  let name := first.text ++ String.join ((rest.takeWhile Token.namesConstant).map Token.text)
  have hleft : (rest.dropWhile Token.namesConstant).length ≤ rest.length :=
    (List.dropWhile_suffix _).length_le
  match rest.dropWhile Token.namesConstant, hleft with
  | [], _ => .ok ⟨.reference name first.line, [], by simp⟩
  | t :: tail, h =>
    if t.text = "::" ∧ Token.isSelfWord (lower name) then
      match tail, h with
      | [], _ => .error (.at .unexpectedEnd ctx.lastLine)
      | m :: tail, h =>
        .ok ⟨.reference (lower name ++ "::" ++ m.text) first.line, tail, by
          simp only [List.length_cons] at h; omega⟩
    else if t.text = "(" ∨ t.text = "::" then
      .error (.at (.cannotEvaluate (name ++ t.text)) first.line)
    else .ok ⟨.reference name first.line, t :: tail, by omega⟩

mutual

/-- Reads operands joined by operators of a rank or of lower ranks. -/
def readBinary (ctx : ReadContext) (room rank : Nat) (ts : List Token) :
    Except Broken (Reading Expression ts.length) :=
  match rank with
  | 0 => readUnary ctx room ts
  | rank + 1 =>
    match readBinary ctx room rank ts with
    | .error b => .error b
    | .ok ⟨left, rest, h⟩ =>
      match readOperators ctx room rank left rest with
      | .error b => .error b
      | .ok ⟨e, rest', h'⟩ => .ok ⟨e, rest', by omega⟩
  termination_by (ts.length, rank + 2)

/-- Reads the operators of the rank above `rank` that follow an operand, each with its right
operand. -/
def readOperators (ctx : ReadContext) (room rank : Nat) (left : Expression) (ts : List Token) :
    Except Broken (Reading Expression (ts.length + 1)) :=
  match ts with
  | [] => .ok ⟨left, [], Nat.lt_succ_self _⟩
  | t :: rest =>
    match t.binaryOp?.filter (·.rank == rank + 1) with
    | none => .ok ⟨left, t :: rest, Nat.lt_succ_self _⟩
    | some op =>
      match readBinary ctx room rank rest with
      | .error b => .error (b.after left)
      | .ok ⟨right, rest', h⟩ =>
        match readOperators ctx room rank (.binary op left right) rest' with
        | .error b => .error b
        | .ok ⟨e, rest'', h'⟩ =>
          .ok ⟨e, rest'', Nat.lt_of_lt_of_le h' (Nat.le_add_right_of_le (Nat.le_add_right_of_le h))⟩
  termination_by (ts.length, 0)

/-- Reads an operand with the operators before it. -/
def readUnary (ctx : ReadContext) (room : Nat) (ts : List Token) :
    Except Broken (Reading Expression ts.length) :=
  match ts with
  | [] => .error (.at .unexpectedEnd ctx.lastLine)
  | t :: rest =>
    match t.unaryOp? with
    | some op =>
      match readUnary ctx room rest with
      | .error b => .error b
      | .ok ⟨e, rest', h⟩ => .ok ⟨.unary op t.line e, rest', by simp only [List.length_cons]; omega⟩
    | none => readPrimary ctx room t rest
  termination_by (ts.length, 1)

/-- Reads an operand that starts with a token. -/
def readPrimary (ctx : ReadContext) (room : Nat) (t : Token) (rest : List Token) :
    Except Broken (Reading Expression (rest.length + 1)) :=
  if t.kind = .numberLiteral then .ok ⟨.number t.text, rest, by simp⟩
  else if t.kind = .stringLiteral then .ok ⟨.string t.text t.line, rest, by simp⟩
  else if t.word = "null" then .ok ⟨.word .null, rest, by simp⟩
  else if t.word = "true" then .ok ⟨.word (.bool true), rest, by simp⟩
  else if t.word = "false" then .ok ⟨.word (.bool false), rest, by simp⟩
  else if t.text = "(" then
    match room with
    | 0 => .error (.at .nestedTooDeeply t.line)
    | room + 1 =>
      match readBinary ctx room 9 rest with
      | .error b => .error b
      | .ok ⟨e, [], _⟩ => .error (.after e (.at .unexpectedEnd ctx.lastLine))
      | .ok ⟨e, c :: rest', h⟩ =>
        if c.text = ")" then
          .ok ⟨.group e, rest', by simp only [List.length_cons] at h; omega⟩
        else .error (.after e (.at (.expected ")" c.text) c.line))
  else if t.text = "[" then
    match room with
    | 0 => .error (.at .nestedTooDeeply t.line)
    | room + 1 =>
      match readElements ctx room "]" rest with
      | .error b => .error b
      | .ok ⟨elements, rest', h⟩ => .ok ⟨.array elements, rest', by omega⟩
  else if t.word = "array" ∧ Token.startsWith rest "(" then
    match room, rest with
    | room + 1, _ :: rest =>
      match readElements ctx room ")" rest with
      | .error b => .error b
      | .ok ⟨elements, rest', h⟩ =>
        .ok ⟨.array elements, rest', by simp only [List.length_cons]; omega⟩
    | _, _ => .error (.at .nestedTooDeeply t.line)
  else if t.namesConstant ∨ Token.isSelfWord t.word then readReference ctx t rest
  else .error (.at (.cannotEvaluate (quoted t.text)) t.line)
  termination_by (rest.length + 1, 0)

/-- Reads the elements of an array and its closing bracket. -/
def readElements (ctx : ReadContext) (room : Nat) (closing : String) (ts : List Token) :
    Except Broken (Reading (List ArrayElement) ts.length) :=
  match ts with
  | [] => .error (.at .unexpectedEnd ctx.lastLine)
  | t :: rest =>
    if t.word = closing then .ok ⟨[], rest, by simp⟩
    else
      match readBinary ctx room 9 (t :: rest) with
      | .error b => .error b
      | .ok ⟨first, left, h⟩ =>
        if Token.startsWith left "=>" then
          have htail : left.length - 1 < rest.length + 1 := by
            simp only [List.length_cons] at h; omega
          match readBinary ctx room 9 left.tail with
          | .error b => .error (b.after first)
          | .ok ⟨value, left', h'⟩ =>
            have hlt : left'.length < (t :: rest).length := by
              simp only [List.length_tail] at h'; omega
            match readSeparator ctx room closing left' with
            | .error b => .error ((b.after value).after first)
            | .ok ⟨elements, left'', h''⟩ => .ok ⟨.keyed first value :: elements, left'', by omega⟩
        else
          match readSeparator ctx room closing left with
          | .error b => .error (b.after first)
          | .ok ⟨elements, left', h'⟩ => .ok ⟨.positional first :: elements, left', by omega⟩
  termination_by (ts.length, 12)

/-- Reads what follows an element of an array: a comma with further elements, or the closing
bracket. -/
def readSeparator (ctx : ReadContext) (room : Nat) (closing : String) (ts : List Token) :
    Except Broken (Reading (List ArrayElement) ts.length) :=
  match ts with
  | [] => .error (.at .unexpectedEnd ctx.lastLine)
  | t :: rest =>
    if t.word = "," then
      match readElements ctx room closing rest with
      | .error b => .error b
      | .ok ⟨elements, left, h⟩ => .ok ⟨elements, left, by simp only [List.length_cons]; omega⟩
    else if t.word = closing then .ok ⟨[], rest, by simp⟩
    else .error (.at (.unexpectedInArray t.text) t.line)
  termination_by (ts.length, 0)

end

/-- The expression that a list of tokens spells from its first to its last token, with at most
`room` brackets open at once. -/
def Expression.ofTokens (room : Nat) (ts : List Token) : Except Broken Expression :=
  match ts.getLast? with
  | none => .error (.at .empty (-1))
  | some last =>
    match readBinary ⟨last.line⟩ room 9 ts with
    | .error b => .error b
    | .ok ⟨e, [], _⟩ => .ok e
    | .ok ⟨e, t :: _, _⟩ => .error (.after e (.at (.unexpected t.text) t.line))

/-- Value of the expression that a list of tokens spells. Faults in what stands before a break are
reported before the break. -/
def evaluate (lookup : ConstantLookup) (room : Nat) (ts : List Token) :
    Except EvaluationFault Value :=
  match Expression.ofTokens room ts with
  | .ok e => e.value lookup
  | .error b => do
    let _ ← b.before.mapM (Expression.value lookup)
    .error (.unsupported b.cause b.line)

end Reflection
