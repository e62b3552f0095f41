import Reflection.DocComment

/-!
# Tags of documentation comments

A tag line is an at sign, a name and, after blanks, what the tag says. Parameters, variables and
results are documented by tags that name types, separated by bars, and then describe in words.

## Main definitions

* `DocComment.tags`: what the tags of a name say.
* `DocComment.parameterDoc?`, `DocComment.variableDoc?`, `DocComment.resultDoc?`: types and
  descriptions.
-/
namespace Reflection

open Reflection.Text

/-- Types and description that a tag gives. -/
structure TypeDescription where
  types : List String
  description : String := ""
  deriving DecidableEq, Repr

/-- The types of a text, which bars separate. -/
def splitTypes (cs : List Char) : List String := (cs.splitOn '|').map String.ofList

/-- The first word of a text as types and the rest as their description. -/
def TypeDescription.ofText (s : String) : TypeDescription :=
  let types := s.toList.takeWhile (!isBlank ·)
  let rest := s.toList.drop types.length
  ⟨splitTypes types, String.ofList (rest.dropWhile isBlank)⟩

/-- Characters that start the name of a variable. -/
def startsVariable (c : Char) : Bool := c.isAlpha || c == '_'

/-- Characters of the name of a variable after its first. -/
def continuesVariable (c : Char) : Bool := startsVariable c || c.isDigit

/-- Name of the variable at the start of a text, and the text after it. -/
def variableAt? : List Char → Option (String × List Char)
  | '$' :: c :: rest =>
    if startsVariable c then
      some (String.ofList (c :: rest.takeWhile continuesVariable), rest.dropWhile continuesVariable)
    else none
  | _ => none

/-- The description after the name of a variable, which blanks must separate from it. -/
def descriptionAfter (cs : List Char) : String :=
  if cs.head?.any isBlank then String.ofList (cs.dropWhile isBlank) else ""

/-- The first variable that stands after a blank, with the types before and the description after
it; `types` holds the text before the remaining one, in reverse. -/
def describedVariable? (types : List Char) : List Char → Option (String × TypeDescription)
  | [] => none
  | c :: rest =>
    let declared := if isBlank c then variableAt? (rest.dropWhile isBlank) else none
    match declared with
    | some (name, after) => some (name, ⟨splitTypes types.reverse, descriptionAfter after⟩)
    | none => describedVariable? (c :: types) rest

namespace DocComment

/-- What a line says under a tag, if it has that tag. -/
def tagText? (name line : String) : Option String :=
  let tag := "@" ++ name
  if tag.toList.isPrefixOf line.toList then
    let rest := line.toList.drop tag.length
    if rest.head?.all isBlank then some (String.ofList (rest.dropWhile isBlank)) else none
  else none

/-- What the tags of a name say, in order. -/
def tags (d : DocComment) (name : String) : List String := d.lines.filterMap (tagText? name)

/-- What a tag of a name says, counted from zero. -/
def tag? (d : DocComment) (name : String) (index : Int) : Option String :=
  if index < 0 then none else (d.tags name)[index.toNat]?

/-- There is a tag of a name. -/
def hasTag (d : DocComment) (name : String) : Bool := !(d.tags name).isEmpty

/-- Documentation of a variable by the first tag of a name that is about it. -/
def described? (d : DocComment) (tag name : String) : Option TypeDescription :=
  (d.tags tag).findSome? fun s =>
    ((describedVariable? [] s.toList).filter (·.1 == name)).map Prod.snd

/-- Documentation of a parameter. -/
def parameterDoc? (d : DocComment) (name : String) : Option TypeDescription :=
  d.described? "param" name

/-- Documentation of a variable; without a name, of the one that the comment stands before. -/
def variableDoc? (d : DocComment) (name : String) : Option TypeDescription :=
  if name = "" then (d.tag? "var" 0).map TypeDescription.ofText else d.described? "var" name

/-- Documentation of the result. -/
def resultDoc? (d : DocComment) : Option TypeDescription :=
  ((d.tag? "return" 0).filter (· != "")).map TypeDescription.ofText

end DocComment
end Reflection
