import Reflection.Text.CodeRange

/-!
# Blank characters and trimming

Two classes of blanks are in use. Texts are split and trimmed at `isBlank`, the white space of the
Unicode standard together with the four information separators; around a number only the white
space itself, `isSpace`, is skipped.

## Main statements

* `isBlank_of_isSpace`: every space is a blank.
* `isBlank_of_isWhitespace`: the blanks contain the white space of `Char.isWhitespace`.
-/
namespace Reflection.Text

/-- Code points with the property `White_Space`. -/
def spaceRanges : CodeRanges := [
  (0x9, 0xD), (0x20, 0x20), (0x85, 0x85), (0xA0, 0xA0), (0x1680, 0x1680), (0x2000, 0x200A),
  (0x2028, 0x2029), (0x202F, 0x202F), (0x205F, 0x205F), (0x3000, 0x3000)]

/-- White space of the Unicode standard. -/
def isSpace (c : Char) : Bool := spaceRanges.has c

/-- White space or one of the four information separators U+001C to U+001F. -/
def isBlank (c : Char) : Bool := isSpace c || (0x1C ≤ c.toNat && c.toNat ≤ 0x1F)

theorem isBlank_of_isSpace {c : Char} (h : isSpace c = true) : isBlank c = true := by
  simp [isBlank, h]

theorem isBlank_of_isWhitespace {c : Char} (h : c.isWhitespace = true) : isBlank c = true := by
  simp only [Char.isWhitespace, Bool.or_eq_true, decide_eq_true_eq] at h
  rcases h with ((rfl | rfl) | rfl) | rfl <;> decide

/-- A text of at least one character, all of them blank. -/
def isBlankText (s : String) : Bool := s != "" && s.toList.all isBlank

/-- The text without the characters at its start that satisfy `p`. -/
def trimStart (p : Char → Bool) (s : String) : String := String.ofList (s.toList.dropWhile p)

/-- The list without the elements at its end that satisfy `p`. -/
def dropTrailing {α : Type} (p : α → Bool) (xs : List α) : List α := (xs.reverse.dropWhile p).reverse

/-- The text without the characters at its end that satisfy `p`. -/
def trimEnd (p : Char → Bool) (s : String) : String := String.ofList (dropTrailing p s.toList)

/-- The text without the characters at both ends that satisfy `p`. -/
def trim (p : Char → Bool) (s : String) : String := trimEnd p (trimStart p s)

end Reflection.Text
