import Reflection.Text.IdentifierTable

/-!
# Identifiers

Two grammars of identifiers. `isIdentifier` is the general one of the Unicode standard.
`isLabel` is the one of PHP source: a letter, a low line or a code point from U+0080 to U+FFFF, then
the same characters and digits; one line feed may follow.
-/
namespace Reflection.Text

/-- Characters that may begin a general identifier. -/
def isIdentifierStart (c : Char) : Bool := identifierStartRanges.has c

/-- Characters that may continue a general identifier. -/
def isIdentifierContinue (c : Char) : Bool :=
  isIdentifierStart c || identifierContinueRanges.has c

/-- Identifiers of the Unicode standard, the low line counting as a letter. -/
def isIdentifier (s : String) : Bool :=
  match s.toList with
  | [] => false
  | c :: rest => isIdentifierStart c && rest.all isIdentifierContinue

/-- Characters that may begin a label of PHP source. -/
def isLabelStart (c : Char) : Bool :=
  c.isAlpha || c == '_' || (0x80 ≤ c.toNat && c.toNat ≤ 0xFFFF)

/-- Characters that may continue a label of PHP source. -/
def isLabelContinue (c : Char) : Bool := isLabelStart c || c.isDigit

/-- The list without one line feed at its end. -/
def dropFinalNewline (cs : List Char) : List Char :=
  if cs.getLast? = some '\n' then cs.dropLast else cs

/-- Labels of PHP source, one line feed at the end being passed over. -/
def isLabel (s : String) : Bool :=
  match dropFinalNewline s.toList with
  | [] => false
  | c :: rest => isLabelStart c && rest.all isLabelContinue

end Reflection.Text
