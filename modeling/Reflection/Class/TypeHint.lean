import Reflection.Text.Blank
import Reflection.Text.WordTable

/-!
# Type hints

A type hint gives the type of a name in a class, as text or as a type. A name whose hint marks it as
a variable of the class itself is no field of its objects.
-/
namespace Reflection

open Reflection.Text

/-- What is hinted about the type of a name. -/
inductive TypeHint
  | text (s : String)
  | type (name : String)
  | classVariable (name : String)
  | none
  deriving DecidableEq, Repr

namespace TypeHint

/-- The text after a word at its start. -/
def after? (word : String) (cs : List Char) : Option (List Char) :=
  if word.toList.isPrefixOf cs then some (cs.drop word.length) else Option.none

/-- A text marks a variable of the class. -/
def namesClassVariable (s : String) : Bool :=
  let cs := s.toList.dropWhile isBlank
  match after? "ClassVar" ((after? "typing." cs).getD cs) with
  | some rest => !rest.head?.any isWordCharacter
  | Option.none => false

/-- The name is a variable of the class. -/
def isClassVariable : TypeHint → Bool
  | text s => namesClassVariable s
  | classVariable _ => true
  | type _ | none => false

/-- The hint as text. -/
def text? : TypeHint → Option String
  | text s => some s
  | type name | classVariable name => some name
  | none => Option.none

end TypeHint
end Reflection
