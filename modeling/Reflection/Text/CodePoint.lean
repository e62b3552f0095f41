import Reflection.Text.Quoted

/-!
# Texts of code points

An escape can name any code point, also a surrogate, which is no character. A text with surrogates
is kept as its code points: a high surrogate does not become one character with a low one after it
before the text is written out, so the two differ from that character until then.

## Main definitions

* `CodePoint`: a character or a surrogate.
* `CodeText`: a text of code points, `CodeText.ofString` that of a string.
* `CodeText.string?`: the string that a text without surrogates is.
* `CodeText.joined`: the string that is written for a text.
-/
namespace Reflection.Text

/-- A code point: a character, or a surrogate by its distance from the first one. -/
inductive CodePoint
  | char (c : Char)
  | surrogate (n : Fin 0x800)
  deriving DecidableEq, Repr

namespace CodePoint

/-- The code point with a number; there are none above 10FFFF. -/
def ofNat? (code : Nat) : Option CodePoint :=
  if h : 0xD800 ≤ code ∧ code < 0xE000 then some (surrogate ⟨code - 0xD800, by omega⟩)
  else if code ≤ 0x10FFFF then some (char (Char.ofNat code))
  else none

/-- The character, if it is one. -/
def char? : CodePoint → Option Char
  | char c => some c
  | surrogate _ => none

/-- Form of one code point between quotes. -/
def quote (mark : Char) : CodePoint → List Char
  | char c => quoteChar mark c
  | surrogate n => '\\' :: 'u' :: hexDigits 4 (0xD800 + n.val)

/-- Characters that are written for code points: one for a high surrogate with a low one after it,
and the replacement character for any other surrogate. -/
def join : List CodePoint → List Char
  | [] => []
  | char c :: rest => c :: join rest
  | surrogate high :: surrogate low :: rest =>
    if high.val < 0x400 ∧ 0x400 ≤ low.val then
      Char.ofNat (0x10000 + high.val * 0x400 + (low.val - 0x400)) :: join rest
    else '\uFFFD' :: join (surrogate low :: rest)
  | surrogate _ :: rest => '\uFFFD' :: join rest

end CodePoint

/-- A text of code points. -/
structure CodeText where
  points : List CodePoint
  deriving DecidableEq, Repr, Inhabited

namespace CodeText

/-- The text of characters. -/
def ofChars (cs : List Char) : CodeText := ⟨cs.map .char⟩

/-- The text of a string. -/
def ofString (s : String) : CodeText := ofChars s.toList

instance : Coe String CodeText := ⟨ofString⟩

/-- The text has no code points. -/
def isEmpty (t : CodeText) : Bool := t.points.isEmpty

/-- One text after the other. -/
def append (s t : CodeText) : CodeText := ⟨s.points ++ t.points⟩

instance : Append CodeText := ⟨append⟩

/-- The string that a text without surrogates is. -/
def string? (t : CodeText) : Option String := (t.points.mapM CodePoint.char?).map String.ofList

/-- The string that is written for a text. -/
def joined (t : CodeText) : String := String.ofList (CodePoint.join t.points)

/-- A text as messages quote it, each surrogate by its number. -/
def quoted (t : CodeText) : String :=
  let mark := quoteMark (t.points.filterMap CodePoint.char?)
  String.ofList (mark :: t.points.flatMap (CodePoint.quote mark) ++ [mark])

@[simp] theorem points_append (s t : CodeText) : (s ++ t).points = s.points ++ t.points := rfl

theorem join_char (cs : List Char) : CodePoint.join (cs.map .char) = cs := by
  induction cs with
  | nil => rfl
  | cons c cs ih => simp [CodePoint.join, ih]

/-- A string is written as it is. -/
@[simp] theorem joined_ofString (s : String) : (ofString s).joined = s := by
  simp [joined, ofString, ofChars, join_char]

/-- Strings with the same code points are the same. -/
@[simp] theorem ofString_inj {s t : String} : ofString s = ofString t ↔ s = t :=
  ⟨fun h => by rw [← joined_ofString s, h, joined_ofString], fun h => h ▸ rfl⟩

/-- A string has no surrogates. -/
@[simp] theorem string?_ofString (s : String) : (ofString s).string? = some s := by
  have h : ∀ cs : List Char, (cs.map CodePoint.char).mapM CodePoint.char? = some cs := by
    intro cs
    induction cs with
    | nil => rfl
    | cons c cs ih => simp [CodePoint.char?, ih]
  simp [string?, ofString, ofChars, h]

/-- A string is quoted in the same way. -/
@[simp] theorem quoted_ofString (s : String) : (ofString s).quoted = Text.quoted s := by
  simp [quoted, Text.quoted, ofString, ofChars, List.filterMap_map, List.flatMap_map,
    Function.comp_def, CodePoint.char?, CodePoint.quote]

end CodeText
end Reflection.Text
