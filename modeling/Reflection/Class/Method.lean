import Reflection.Number.IntegerText
import Reflection.Text.Margin
import Reflection.Value

/-!
# Methods

A method takes its receiver, the object or the class that it is called on, before its arguments,
unless it is static. Its body is a single action.

## Main definitions

* `Method`, `Parameter`, `MethodBody`.
* `Method.parameterCount`: the number of its parameters besides the receiver.
* `Method.arguments?`: the arguments of a call by the names of the parameters.
-/
namespace Reflection

open Reflection.Text

/-- How a parameter takes arguments: one, one or none, all that are left, or those that are given by
name. A mark among the parameters takes none. Behind a mark for names no parameter takes an argument
by its position; a mark for positions tells the same about names of those before it. -/
inductive ParameterKind
  | required
  | optional (default : Value)
  | rest
  | named
  | nameMark
  | positionMark

/-- A parameter of a method. -/
structure Parameter where
  name : String
  kind : ParameterKind

/-- What a method is called on: an object, its class, or nothing. -/
inductive MethodKind
  | ofObject
  | ofClass
  | static
  deriving DecidableEq, Repr

/-- What a method does. It gets an attribute of its receiver, gives a constant, adds one to an
attribute, stores its argument, stores a list of its argument, fails, or does what is not known. -/
inductive MethodBody
  | get (name : String)
  | const (v : Value)
  | count (name : String)
  | set (name : String)
  | wrap (name : String)
  | fail
  | unknown

/-- A method; its parameters include the receiver. -/
structure Method where
  kind : MethodKind
  parameters : List Parameter
  body : MethodBody
  doc : Option String := none

/-- What a parameter stands for in a call: the object or the class that the method is called on, or
a value. -/
inductive Argument
  | object
  | type
  | value (v : Value)

/-- Value of an argument; receivers are no values. -/
def Argument.value? : Argument → Option Value
  | value v => some v
  | _ => none

/-- Value of a literal, null unless it is a switch, an integer or a text in quotes. -/
def Parameter.literal (s : String) : Value :=
  match s.toList with
  | ['T', 'r', 'u', 'e'] => .bool true
  | ['F', 'a', 'l', 's', 'e'] => .bool false
  | '\'' :: rest | '"' :: rest => .text (String.ofList rest.dropLast)
  | _ => ((Number.readInteger? 10 s).map Value.int).getD .null

/-- The parameter that a text declares: a name after its stars, perhaps with a type after a colon and
a default after an equals sign, or a mark. -/
def Parameter.ofText (s : String) : Parameter :=
  let trimmed (cs : List Char) := trim isBlank (String.ofList cs)
  let cs := s.toList.dropWhile (· == '*')
  let name := trimmed (cs.takeWhile fun c => c != ':' && c != '=')
  match s.toList, cs.dropWhile (· != '=') with
  | ['*'], _ => ⟨name, .nameMark⟩
  | ['/'], _ => ⟨name, .positionMark⟩
  | '*' :: '*' :: _, _ => ⟨name, .named⟩
  | '*' :: _, _ => ⟨name, .rest⟩
  | _, _ :: default => ⟨name, .optional (literal (trimmed default))⟩
  | _, [] => ⟨name, .required⟩

/-- It is no parameter but a mark among them. -/
def Parameter.isMark (p : Parameter) : Bool :=
  match p.kind with
  | .nameMark | .positionMark => true
  | _ => false

namespace Method

/-- Number of parameters of a method besides the receiver, as far as that is known. -/
def parameterCount (m : Method) : Nat :=
  let count := m.parameters.countP (!·.isMark)
  match m.body, m.kind with
  | .unknown, _ => 0
  | _, .static => count
  | _, _ => count - 1

/-- Documentation without margin. -/
def docText? (m : Method) : Option String := m.doc.map dropMargin

/-- Arguments by the names of the parameters; none where there are too few or too many. -/
def arguments? : List Parameter → List Argument → Option (List (String × Argument))
  | [], [] => some []
  | [], _ :: _ => none
  | ⟨name, .rest⟩ :: ps, args =>
    (arguments? ps []).map ((name, .value (.list (args.filterMap Argument.value?))) :: ·)
  | ⟨name, .named⟩ :: ps, args => (arguments? ps args).map ((name, .value (.map [])) :: ·)
  | ⟨_, .positionMark⟩ :: ps, args => arguments? ps args
  | ⟨_, .nameMark⟩ :: ps, [] => arguments? ps []
  | ⟨_, .nameMark⟩ :: _, _ :: _ => none
  | ⟨name, _⟩ :: ps, a :: args => (arguments? ps args).map ((name, a) :: ·)
  | ⟨name, .optional default⟩ :: ps, [] => (arguments? ps []).map ((name, .value default) :: ·)
  | ⟨_, .required⟩ :: _, [] => none

/-- Name of the parameter for an object as the receiver. -/
def objectParameter : String := "self"

/-- Name of the parameter for a class as the receiver. -/
def classParameter : String := "cls"

/-- Parameter for the receiver of a method. -/
def receiverParameter : MethodKind → List Parameter
  | .ofObject => [⟨objectParameter, .required⟩]
  | .ofClass => [⟨classParameter, .required⟩]
  | .static => []

/-- What a method is called on, as the first of its arguments. -/
def receiver : MethodKind → List Argument
  | .ofObject => [.object]
  | .ofClass => [.type]
  | .static => []

end Method
end Reflection
