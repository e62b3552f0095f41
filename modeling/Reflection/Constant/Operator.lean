import Reflection.Constant.Fault
import Reflection.Number.Bitwise
import Reflection.Number.FloatText
import Reflection.Value

/-!
# Operators of constant expressions

Each operator has a spelling and a rank; operators of a lower rank bind more tightly. Booleans count
as zero and one in arithmetic, integers have no bounds, and a double meets an integer as the nearest
double.

## Main definitions

* `BinaryOp`, `UnaryOp`: the operators, with spellings and ranks.
* `BinaryOp.apply`, `UnaryOp.apply`: what they compute.
* `Value.asText`: the text that a value stands for between texts.
* `Value.mapOf`: the map with given entries, their keys normalised.
-/
namespace Reflection

open Reflection.Number Reflection.Text

/-! ## Spellings and ranks -/

/-- Operators between two operands. -/
inductive BinaryOp
  | or
  | orWord
  | and
  | andWord
  | bitOr
  | bitXor
  | bitAnd
  | concat
  | shiftLeft
  | shiftRight
  | add
  | subtract
  | multiply
  | divide
  | remainder
  deriving DecidableEq, Repr

namespace BinaryOp

/-- Every operator. -/
def all : List BinaryOp := [
  or, orWord, and, andWord, bitOr, bitXor, bitAnd, concat, shiftLeft, shiftRight, add, subtract,
  multiply, divide, remainder]

/-- Spelling of an operator, in lower case. -/
def spelling : BinaryOp → String
  | or => "||"
  | orWord => "or"
  | and => "&&"
  | andWord => "and"
  | bitOr => "|"
  | bitXor => "^"
  | bitAnd => "&"
  | concat => "."
  | shiftLeft => "<<"
  | shiftRight => ">>"
  | add => "+"
  | subtract => "-"
  | multiply => "*"
  | divide => "/"
  | remainder => "%"

/-- The operator with a spelling. -/
def ofSpelling? (s : String) : Option BinaryOp := all.find? (·.spelling == s)

/-- Rank of an operator, from one for the tightest to nine for the loosest. -/
def rank : BinaryOp → Nat
  | or | orWord => 9
  | and | andWord => 8
  | bitOr => 7
  | bitXor => 6
  | bitAnd => 5
  | concat => 4
  | shiftLeft | shiftRight => 3
  | add | subtract => 2
  | multiply | divide | remainder => 1

end BinaryOp

/-- Operators before one operand. -/
inductive UnaryOp
  | negate
  | affirm
  | not
  | complement
  deriving DecidableEq, Repr

namespace UnaryOp

/-- Spelling of an operator. -/
def spelling : UnaryOp → String
  | negate => "-"
  | affirm => "+"
  | not => "!"
  | complement => "~"

/-- The operator with a spelling. -/
def ofSpelling? (s : String) : Option UnaryOp :=
  [negate, affirm, not, complement].find? (·.spelling == s)

end UnaryOp

/-! ## Operands -/

/-- The operands do not fit an operator. -/
def BinaryOp.misfit {α : Type} (op : BinaryOp) : Except EvaluationFault α :=
  .error (.unsupported (.cannotApply op.spelling) (-1))

/-- Double of an integer, which must lie in their range. -/
def floatOf (n : Int) : Except EvaluationFault Float :=
  match ofInt? n with
  | some x => .ok x
  | none => .error .outOfRange

/-- Integer part of a double. -/
def integerPart (x : Float) : Except EvaluationFault Int :=
  if x.isNaN then .error .undefinedInteger
  else if x.isInf then .error .infiniteInteger
  else .ok (truncate x)

/-- Integer that a text denotes. -/
def integerOfText (s : CodeText) : Except EvaluationFault Int :=
  match s.string?.bind (readInteger? 10) with
  | some n => .ok n
  | none => .error (.notAnInteger s)

namespace Value

/-- Text that a value stands for between texts. Doubles without a fraction are written like
integers below `10 ^ 15`. -/
def asText : Value → Except EvaluationFault CodeText
  | null => .ok ""
  | bool b => .ok (CodeText.ofString (if b then "1" else ""))
  | int n =>
    match writeInteger? n with
    | some s => .ok s
    | none => .error .tooManyDigits
  | float x =>
    .ok (CodeText.ofString
      (if isIntegral x && (truncate x).natAbs < Nat.pow 10 15 then decimalInt (truncate x)
        else floatText x))
  | text s => .ok s
  | list _ | map _ => .error (.unsupported .arrayAsText (-1))

/-- The operand of an arithmetic operator as a double, if it is a number. -/
def asFloat? : Value → Option (Except EvaluationFault Float)
  | float x => some (.ok x)
  | bool b => some (floatOf (if b then 1 else 0))
  | int n => some (floatOf n)
  | _ => none

/-- The greatest number to which things can be counted. -/
def maxCount : Int := 0x7FFFFFFFFFFFFFFF

/-- The greatest number of characters, items or bits that a value can have. -/
def maxSize : Nat := 0x1000000000

/-- The greatest number of places, of 30 bits each, that the size of an integer can be counted in. -/
def maxPlaces : Nat := 0x1FFFFFFFFFFFFFF9

/-- Places, of 30 bits each, that are set aside for an integer other than zero, shifted to the left by
a number of bits. -/
def places (m : Int) (bits : Nat) : Nat := (bits + 29) / 30 + (m.natAbs.log2 / 30 + 1)

/-- A list that consists of copies of a list; there are none for a negative count. The count itself
must not exceed what can be counted to, in either direction. -/
def copies {α : Type} (count : Int) (items : List α) : Except EvaluationFault (List α) :=
  if count < -maxCount - 1 ∨ maxCount < count then .error .outOfRange
  else if maxSize < count.toNat * items.length then .error .tooLarge
  else if items.isEmpty then .ok []
  else .ok (List.replicate count.toNat items).flatten

/-- A text that consists of copies of a text; its code points must be countable. -/
def textCopies (count : Int) (s : CodeText) : Except EvaluationFault CodeText :=
  if maxCount < count * s.points.length then .error .outOfRange
  else (copies count s.points).map CodeText.mk

/-! ## Keys of maps -/

/-- The text is the decimal form of an integer up to further signs at its start. -/
def looksIntegral (s : String) : Bool :=
  let digits := s.toList.dropWhile (· == '-')
  !digits.isEmpty && digits.all Text.isDigit

/-- Key that a value stands for: null is the next free integer, booleans are zero and one, doubles
lose their fraction, and the decimal form of an integer is that integer. -/
def asKey (next : Int) : Value → Except EvaluationFault Key
  | null => .ok (.int next)
  | bool b => .ok (.int (if b then 1 else 0))
  | int n => .ok (.int n)
  | float x => (integerPart x).map .int
  | text s =>
    if s.string?.any looksIntegral then do
      let n ← integerOfText s
      return if CodeText.ofString (decimalInt n) = s then .int n else .text s
    else .ok (.text s)
  | list _ | map _ => .error .unusableKey

/-- The next free integer once a key is taken. -/
def nextAfter (next : Int) : Key → Int
  | .int n => max next (n + 1)
  | .text _ => next

/-- Entries of a map that has `entries` already, each with its key as written; an entry without key
counts as one with the key null. The next free integer follows the greatest one that is taken. -/
def entriesFrom (next : Int) (entries : List (Key × Value)) :
    List (Option Value × Value) → Except EvaluationFault (List (Key × Value))
  | [] => .ok entries
  | (key, value) :: rest => do
    let key ← (key.getD null).asKey next
    entriesFrom (nextAfter next key) (Table.insert entries key value) rest

/-- The map with the given entries. -/
def mapOf (entries : List (Option Value × Value)) : Except EvaluationFault Value :=
  (entriesFrom 0 [] entries).map map

end Value

/-! ## Application -/

namespace BinaryOp

open Value

/-- Sum, difference or product of two numbers. -/
def arithmetic (op : BinaryOp) (exact : Int → Int → Int) (rounded : Float → Float → Float)
    (left right : Value) : Except EvaluationFault Value :=
  match left.asInt?, right.asInt?, left.asFloat?, right.asFloat? with
  | some m, some n, _, _ => .ok (.int (exact m n))
  | _, _, some x, some y => do return .float (rounded (← x) (← y))
  | _, _, _, _ => op.misfit

/-- Quotient of two numbers: an integer where it is exact, otherwise the nearest double. -/
def quotient (left right : Value) : Except EvaluationFault Value :=
  match left.asInt?, right.asInt?, left.asFloat?, right.asFloat? with
  | some m, some n, _, _ =>
    if n = 0 then divide.misfit
    else if m.fmod n = 0 then .ok (.int (m.fdiv n))
    else match ofRatio? ((m < 0) != (n < 0)) m.natAbs n.natAbs with
      | some x => .ok (.float x)
      | none => .error .outOfRange
  | _, _, some x, some y => do
    let x ← x
    let y ← y
    if y == 0 then divide.misfit else return .float (x / y)
  | _, _, _, _ => divide.misfit

/-- Integer that an operand of the remainder stands for. -/
def remainderOperand : Value → Except EvaluationFault Int
  | .bool b => .ok (if b then 1 else 0)
  | .int n => .ok n
  | .float x => integerPart x
  | .text s => integerOfText s
  | .null | .list _ | .map _ => remainder.misfit

/-- Remainder of the distances from zero of two integers, with the sign of the first integer. -/
def signedRemainder (m n : Int) : Int :=
  let distance := m.natAbs % n.natAbs
  if m < 0 then -distance else distance

/-- Bitwise operation; two booleans give a boolean. -/
def bitwise (op : BinaryOp) (f : Int → Int → Int) (left right : Value) :
    Except EvaluationFault Value :=
  match left, right with
  | .bool a, .bool b => .ok (.bool (f (if a then 1 else 0) (if b then 1 else 0) != 0))
  | _, _ =>
    match left.asInt?, right.asInt? with
    | some m, some n => .ok (.int (f m n))
    | _, _ => op.misfit

/-- Shift of an integer by a count. -/
def shifted (op : BinaryOp) (f : Int → Nat → Except EvaluationFault Int) (left right : Value) :
    Except EvaluationFault Value :=
  match left.asInt?, right.asInt? with
  | some m, some n => if n < 0 then .error .negativeShift else (f m n.toNat).map .int
  | _, _ => op.misfit

/-- Copies of a text or of a list, if one operand is such and the other an integer. -/
def repeated? (left right : Value) : Option (Except EvaluationFault Value) :=
  let text (count : Int) (s : CodeText) := (textCopies count s).map .text
  let list (count : Int) (items : List Value) := (copies count items).map .list
  match left, right, left.asInt?, right.asInt? with
  | .text s, _, _, some n => some (text n s)
  | .list items, _, _, some n => some (list n items)
  | _, .text s, some n, _ => some (text n s)
  | _, .list items, some n, _ => some (list n items)
  | _, _, _, _ => none

/-- Value of an operator between two operands. -/
def apply (op : BinaryOp) (left right : Value) : Except EvaluationFault Value :=
  match op with
  | concat => do return .text ((← left.asText) ++ (← right.asText))
  | or | orWord => .ok (.bool (left.isTrue || right.isTrue))
  | and | andWord => .ok (.bool (left.isTrue && right.isTrue))
  | add =>
    match left, right with
    | .map a, .map b => .ok (.map (Table.insertAll b a))
    | .text a, .text b => .ok (.text (a ++ b))
    | .list a, .list b => .ok (.list (a ++ b))
    | _, _ => arithmetic add (· + ·) (· + ·) left right
  | subtract => arithmetic subtract (· - ·) (· - ·) left right
  | multiply => (repeated? left right).getD (arithmetic multiply (· * ·) (· * ·) left right)
  | divide => quotient left right
  | remainder => do
    let m ← remainderOperand left
    let n ← remainderOperand right
    if n = 0 then remainder.misfit else return .int (signedRemainder m n)
  | bitOr =>
    match left, right with
    | .map a, .map b => .ok (.map (Table.insertAll a b))
    | _, _ => bitwise bitOr Number.bitOr left right
  | bitXor => bitwise bitXor Number.bitXor left right
  | bitAnd => bitwise bitAnd Number.bitAnd left right
  | shiftLeft =>
    shifted shiftLeft (fun m n =>
      if m = 0 then .ok 0
      else if maxPlaces < places m n then .error .outOfRange
      else if maxSize < n then .error .tooLarge
      else .ok (Number.shiftLeft m n)) left right
  | shiftRight => shifted shiftRight (fun m n => .ok (Number.shiftRight m n)) left right

end BinaryOp

/-- Value of an operator before an operand, at a line. -/
def UnaryOp.apply (op : UnaryOp) (line : Int) (operand : Value) : Except EvaluationFault Value :=
  let misfit : Except EvaluationFault Value :=
    .error (.unsupported (.invalidOperand op.spelling) line)
  match op, operand, operand.asInt? with
  | not, _, _ => .ok (.bool (!operand.isTrue))
  | negate, _, some n => .ok (.int (-n))
  | negate, .float x, _ => .ok (.float (-x))
  | affirm, _, some n => .ok (.int n)
  | affirm, .float x, _ => .ok (.float x)
  | complement, _, some n => .ok (.int (bitNot n))
  | _, _, _ => misfit

end Reflection
