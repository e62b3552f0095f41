import Reflection.Text.Blank

/-!
# Forms of documented types

A documented type is the array of a type, written with brackets after it, a map between two types,
or anything else, which is taken as it stands.

## Main definitions

* `TypeForm`, `TypeForm.ofText`.
-/
namespace Reflection

open Reflection.Text

/-- Forms of documented types. -/
inductive TypeForm
  | array (item : String)
  | map (key value : String)
  | plain (name : String)
  deriving DecidableEq, Repr

namespace TypeForm

/-- Characters that start a segment of the name of a type. -/
def startsSegment (c : Char) : Bool := c.isAlpha || c == '_'

/-- Characters of a segment after its first. -/
def continuesSegment (c : Char) : Bool := startsSegment c || c.isDigit

/-- Length of the rest of a segment at the start of a text, and of the segments that follow it, each
after a backslash. -/
def moreSegments : List Char → Nat
  | '\\' :: c :: rest => if startsSegment c then moreSegments rest + 2 else 0
  | c :: rest => if continuesSegment c then moreSegments rest + 1 else 0
  | [] => 0

/-- Length of the name of a type at the start of a text. -/
def nameLength? : List Char → Option Nat
  | '\\' :: c :: rest => if startsSegment c then some (moreSegments rest + 2) else none
  | c :: rest => if startsSegment c then some (moreSegments rest + 1) else none
  | [] => none

/-- The name of a type at the start of a text, and the text after it. -/
def takeName? (cs : List Char) : Option (String × List Char) :=
  (nameLength? cs).map fun n => (String.ofList (cs.take n), cs.drop n)

/-- The type whose array a text spells; a line feed may follow. -/
def itemOf? (cs : List Char) : Option String :=
  (takeName? cs).bind fun (name, rest) =>
    if rest = "[]".toList ∨ rest = "[]\n".toList then some name else none

/-- The text after a mark at its start. -/
def after? (mark : String) (cs : List Char) : Option (List Char) :=
  if mark.toList.isPrefixOf cs then some (cs.drop mark.length) else none

/-- The types of the map that starts a text. -/
def mapAt? (cs : List Char) : Option (String × String) := do
  let rest ← after? "array<" cs
  let (key, rest) ← takeName? (rest.dropWhile isBlank)
  let rest ← after? "," (rest.dropWhile isBlank)
  let (value, rest) ← takeName? (rest.dropWhile isBlank)
  let _ ← after? ">" (rest.dropWhile isBlank)
  return (key, value)

/-- The types of the first map that a text holds. -/
def mapIn? : List Char → Option (String × String)
  | [] => none
  | c :: rest => (mapAt? (c :: rest)).or (mapIn? rest)

/-- Form of a documented type. -/
def ofText (s : String) : TypeForm :=
  match itemOf? s.toList, mapIn? s.toList with
  | some item, _ => array item
  | none, some (key, value) => map key value
  | none, none => plain s

/-- Type by which a form is known: the word `array` for arrays and maps. -/
def name : TypeForm → String
  | array _ | map .. => "array"
  | plain name => name

/-- Type of the keys. -/
def key? : TypeForm → Option String
  | array _ => some "integer"
  | map key _ => some key
  | plain _ => none

/-- Type of the items. -/
def value? : TypeForm → Option String
  | array item => some item
  | map _ value => some value
  | plain _ => none

end TypeForm
end Reflection
