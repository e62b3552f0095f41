import Reflection.Table
import Reflection.Text.CodePoint

/-!
# Values

The values of constants and of object fields: null, booleans, integers without bounds, doubles,
texts, lists, and maps from integers and texts whose entries keep the order of insertion.
-/
namespace Reflection

open Reflection.Text

/-- Keys of maps. -/
inductive Key
  | int (n : Int)
  | text (s : CodeText)
  deriving DecidableEq, Repr

/-- Values of constants and fields. -/
inductive Value
  | null
  | bool (b : Bool)
  | int (n : Int)
  | float (x : Float)
  | text (s : CodeText)
  | list (items : List Value)
  | map (entries : List (Key × Value))
  deriving Inhabited

namespace Value

/-- Truth of a value: null, zero, and whatever is empty are false. -/
def isTrue : Value → Bool
  | null => false
  | bool b => b
  | int n => n != 0
  | float x => x != 0
  | text s => !s.isEmpty
  | list items => !items.isEmpty
  | map entries => !entries.isEmpty

/-- Integer that a value counts as in arithmetic: booleans are zero and one. -/
def asInt? : Value → Option Int
  | bool b => some (if b then 1 else 0)
  | int n => some n
  | _ => none

end Value
end Reflection
