import Reflection.Text.Blank
import Reflection.Text.Case

/-!
# Qualified names

The segments of a qualified name are joined by backslashes. The global namespace is the empty name.
Names of types and functions are compared without regard to letter case and leading backslashes.
-/
namespace Reflection.Name

open Reflection.Text

/-- The character between two segments. -/
def separator : Char := '\\'

/-- A name inside a namespace. -/
def join (space name : String) : String := if space = "" then name else space ++ "\\" ++ name

/-- The name without separators at its start. -/
def relative (name : String) : String := trimStart (· == separator) name

/-- The last segment of a name; separators at the end are passed over. -/
def localPart (name : String) : String :=
  String.ofList
    ((dropTrailing (· == separator) name.toList).reverse.takeWhile (· != separator)).reverse

/-- The name holds a separator. -/
def isQualified (name : String) : Bool := name.toList.contains separator

/-- The name starts with a separator. -/
def isAbsolute (name : String) : Bool := name.toList.head? == some separator

/-- The name ends with a separator. -/
def endsOpen (name : String) : Bool := name.toList.getLast? == some separator

/-- Form under which names of types and functions are compared. -/
def fold (name : String) : String := lower (relative name)

end Reflection.Name
