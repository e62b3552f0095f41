/-!
# Lines of a text

A line ends at any of the line boundaries of the Unicode standard and at the file, group and record
separators; a carriage return followed by a line feed is one boundary. The last line need not be
terminated.
-/
namespace Reflection.Text

/-- Characters that end a line. -/
def isLineBoundary (c : Char) : Bool :=
  let n := c.toNat
  (0xA ≤ n && n ≤ 0xD) || (0x1C ≤ n && n ≤ 0x1E) || n == 0x85 || n == 0x2028 || n == 0x2029

/-- Lines of the characters that remain, where `current` holds the line begun so far in reverse. -/
def linesFrom (current : List Char) : List Char → List String
  | [] => if current.isEmpty then [] else [String.ofList current.reverse]
  | '\r' :: '\n' :: rest => String.ofList current.reverse :: linesFrom [] rest
  | c :: rest =>
    if isLineBoundary c then String.ofList current.reverse :: linesFrom [] rest
    else linesFrom (c :: current) rest

/-- The lines of a text without their boundaries. -/
def lines (s : String) : List String := linesFrom [] s.toList

/-- Every carriage return, alone or before a line feed, becomes a line feed. -/
def unifyNewlines : List Char → List Char
  | [] => []
  | '\r' :: '\n' :: rest => '\n' :: unifyNewlines rest
  | c :: rest => (if c = '\r' then '\n' else c) :: unifyNewlines rest

end Reflection.Text
