import Reflection.Number.FloatText
import Reflection.Value

/-!
# Values as text

A text displays as itself. Inside a list or a map, and for every other kind of value, the written
form is shown: texts quoted, lists in brackets, maps in braces. A value that holds an integer with
too many digits has no written form.
-/
namespace Reflection

open Reflection.Number Reflection.Text

/-- Written form of a key. -/
def Key.written? : Key → Option String
  | .int n => writeInteger? n
  | .text s => some s.quoted

namespace Value

mutual

/-- Written form of a value. -/
def written? : Value → Option String
  | null => some "None"
  | bool b => some (if b then "True" else "False")
  | int n => writeInteger? n
  | float x => some (floatText x)
  | text s => some s.quoted
  | list items => do return "[" ++ ", ".intercalate (← writtenItems? items) ++ "]"
  | map entries => do return "\x7b" ++ ", ".intercalate (← writtenEntries? entries) ++ "\x7d"

/-- Written forms of the items of a list. -/
def writtenItems? : List Value → Option (List String)
  | [] => some []
  | v :: rest => do return (← written? v) :: (← writtenItems? rest)

/-- Written forms of the entries of a map. -/
def writtenEntries? : List (Key × Value) → Option (List String)
  | [] => some []
  | (k, v) :: rest => do
    return ((← k.written?) ++ ": " ++ (← written? v)) :: (← writtenEntries? rest)

end

/-- Text that stands for a value. -/
def display? : Value → Option String
  | text s => some s.joined
  | v => written? v

end Value
end Reflection
