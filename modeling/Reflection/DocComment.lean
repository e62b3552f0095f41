import Reflection.Text.Blank
import Reflection.Text.Line

/-!
# Documentation comments

A documentation comment is read line by line. A line that starts with an at sign starts a logical
line, an empty line ends one, and every other line continues the logical line before it. A logical
line is a tag when it starts with an at sign, and free text otherwise.

## Main definitions

* `DocComment`, `DocComment.ofText`: the logical lines of a comment.
* `DocComment.render`: a comment with given logical lines.
-/
namespace Reflection

open Reflection.Text

/-- A documentation comment, by its logical lines. -/
structure DocComment where
  lines : List String
  deriving DecidableEq, Repr

namespace DocComment

/-- A line closes the comment when it starts with asterisks and a slash. -/
def closesComment : List Char → Bool
  | '*' :: rest => (rest.dropWhile (· == '*')).head? == some '/'
  | _ => false

/-- A line without the mark that opens a comment, or the asterisks at its start, and the blanks after
these. -/
def dropOpening : List Char → List Char
  | '/' :: '*' :: '*' :: rest => (rest.dropWhile (· == '*')).dropWhile isBlank
  | '*' :: rest => (rest.dropWhile (· == '*')).dropWhile isBlank
  | cs => cs

/-- A line without the mark that closes a comment at its end and the blanks before it. -/
def dropClosing (cs : List Char) : List Char :=
  match cs.reverse with
  | '/' :: '*' :: rest => ((rest.dropWhile (· == '*')).dropWhile isBlank).reverse
  | _ => cs

/-- What a line of a comment says, without the marks of the comment. A line that starts by closing
the comment is no part of it. -/
def lineText? (line : String) : Option String :=
  let cs := (trim isBlank line).toList
  if closesComment cs then none else some (String.ofList (dropClosing (dropOpening cs)))

/-- A line is a tag. -/
def isTag (line : String) : Bool := line.toList.head? == some '@'

/-- The logical line begun so far, if anything is. -/
def finished (current : String) : List String := if current = "" then [] else [current]

/-- Logical lines of the lines that remain, where `current` is the one begun so far. -/
def joinLines (current : String) : List String → List String
  | [] => finished current
  | line :: rest =>
    if line = "" ∨ isTag line then finished current ++ joinLines line rest
    else joinLines (if current = "" then line else current ++ " " ++ line) rest

/-- The comment that a text holds. -/
def ofText (s : String) : DocComment := ⟨joinLines "" ((Text.lines s).filterMap lineText?)⟩

/-- The lines of free text. -/
def textLines (d : DocComment) : List String := d.lines.filter (!isTag ·)

/-- The first line of free text. -/
def summary? (d : DocComment) : Option String := d.textLines.head?

/-- The lines of free text after the first one. -/
def details (d : DocComment) : List String := d.textLines.tail

/-- The text of a comment, with an empty line between logical lines. -/
def render (d : DocComment) : String :=
  "/**\n" ++ "\n\n".intercalate (d.lines.map (" * " ++ ·)) ++ "\n */\n"

end DocComment
end Reflection
