import Reflection.Text.CodePoint

/-!
# Faults of constant expressions

An expression that is no literal, or whose operands do not fit their operator, is unsupported, with
the line where that shows. Some operations fail for reasons of their own: a text that is no integer,
a number out of range, a key that is a list.
-/
namespace Reflection

open Reflection.Text

/-- Why an expression is not supported. -/
inductive Unsupported
  | empty
  | unexpected (text : String)
  | unexpectedEnd
  | expected (wanted found : String)
  | unexpectedInArray (text : String)
  | invalidOperand (operator : String)
  | cannotEvaluate (text : String)
  | unknownConstant (name : String)
  | nestedTooDeeply
  | cannotApply (operator : String)
  | arrayAsText
  | invalidNumber (text : String)
  | unsupportedString (text : String)
  | interpolation
  deriving DecidableEq, Repr

/-- Wording of a cause. -/
def Unsupported.message : Unsupported → String
  | empty => "Empty constant expression"
  | unexpected text => "Unexpected " ++ quoted text
  | unexpectedEnd => "Unexpected end of constant expression"
  | expected wanted found => "Expected " ++ quoted wanted ++ ", got " ++ quoted found
  | unexpectedInArray text => "Unexpected " ++ quoted text ++ " in array"
  | invalidOperand operator => "Invalid operand for " ++ quoted operator
  | cannotEvaluate text => "Cannot evaluate " ++ text
  | unknownConstant name => "Unknown constant " ++ name
  | nestedTooDeeply => "Constant expression is nested too deeply"
  | cannotApply operator => "Cannot apply " ++ quoted operator
  | arrayAsText => "Array to string conversion"
  | invalidNumber text => "Invalid number literal " ++ quoted text
  | unsupportedString text => "Unsupported string literal " ++ quoted text
  | interpolation => "String interpolation cannot be evaluated"

/-- Why an expression has no value. -/
inductive EvaluationFault
  /-- The expression is not supported; the line is negative when unknown. -/
  | unsupported (cause : Unsupported) (line : Int)
  /-- A text is not the text of an integer. -/
  | notAnInteger (text : CodeText)
  /-- The undefined double has no integer part. -/
  | undefinedInteger
  /-- An infinite double has no integer part. -/
  | infiniteInteger
  /-- An integer has too many digits to be written. -/
  | tooManyDigits
  /-- A number lies beyond the range of doubles, or of what can be shifted or repeated. -/
  | outOfRange
  /-- A value is too large to be kept. -/
  | tooLarge
  /-- The count of a shift is negative. -/
  | negativeShift
  /-- No character has the code point of an escape. -/
  | noCharacter (code : Nat)
  /-- The code point of an escape does not even fit an index. -/
  | hugeCode (code : Nat)
  /-- A list or a map cannot be a key. -/
  | unusableKey
  deriving DecidableEq, Repr

/-- A message with the line that it is about, if that is known. -/
def atLine (message : String) (line : Int) : String :=
  if 0 ≤ line then s!"{message} at line {line}" else message

end Reflection
