import Reflection.Constant.Fault
import Reflection.Number.FloatText
import Reflection.Text.Case
import Reflection.Value

/-!
# Number literals

Integers are written in base sixteen, two or eight after a mark, in base eight after a bare zero,
and in base ten; a point or an exponent makes a double. Low lines may separate digits.
-/
namespace Reflection

open Reflection.Number Reflection.Text

/-- Number of a literal in lower case without low lines. -/
def readLiteral? (literal : List Char) : Option Value :=
  let integer (base : Nat) (digits : List Char) : Option Value :=
    (readInteger? base (String.ofList digits)).map .int
  let decimal : Option Value :=
    if literal.contains '.' || literal.contains 'e' || literal == "inf".toList ||
        literal == "nan".toList then
      (readFloat? (String.ofList literal)).map .float
    else if literal.head? == some '0' && 1 < literal.length then integer 8 literal
    else integer 10 literal
  match literal with
  | '0' :: 'x' :: digits => integer 16 digits
  | '0' :: 'b' :: digits => integer 2 digits
  | '0' :: 'o' :: digits => integer 8 digits
  | _ => decimal

/-- Number of a literal. -/
def parseNumber (text : String) : Except EvaluationFault Value :=
  match readLiteral? (lower (String.ofList (text.toList.filter (· != '_')))).toList with
  | some v => .ok v
  | none => .error (.unsupported (.invalidNumber text) (-1))

end Reflection
