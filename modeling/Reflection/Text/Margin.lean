import Reflection.Text.Blank

/-!
# Text without margin

A text that is written with the indentation of its surroundings loses it: the first line all of its
indentation, the other lines what is common to those that are not blank, and the empty lines at both
ends go.

## Main definitions

* `expandTabs`: tabs as spaces.
* `dropMargin`: the text without margin.
-/
namespace Reflection.Text

/-- Columns between two tab stops. -/
def tabWidth : Nat := 8

/-- The characters with spaces up to the next tab stop in place of each tab, from a column on. -/
def expandTabs (column : Nat) : List Char → List Char
  | [] => []
  | c :: rest =>
    if c = '\t' then
      let width := tabWidth - column % tabWidth
      List.replicate width ' ' ++ expandTabs (column + width) rest
    else c :: expandTabs (if c = '\n' ∨ c = '\r' then 0 else column + 1) rest

/-- Number of blanks at the start of a line that has more than blanks. -/
def indentation? (line : List Char) : Option Nat :=
  if line.all isBlank then none else some (line.takeWhile isBlank).length

/-- The greatest indentation common to all lines that have one, zero if none has. -/
def margin (lines : List (List Char)) : Nat := ((lines.filterMap indentation?).min?).getD 0

/-- The text without margin. -/
def dropMargin (s : String) : String :=
  match (expandTabs 0 s.toList).splitOn '\n' with
  | [] => ""
  | first :: rest =>
    let lines := first.dropWhile isBlank :: rest.map (List.drop (margin rest))
    String.ofList (['\n'].intercalate
      ((dropTrailing List.isEmpty lines).dropWhile List.isEmpty))

end Reflection.Text
