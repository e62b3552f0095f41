import Reflection.Text.Digit
import Reflection.Text.PrintableTable

/-!
# Quoted texts in messages

A text is quoted with single quotes, or with double quotes when it holds a single quote and no
double quote. Inside, the quote in use and the backslash are escaped, the usual controls have short
escapes, and every other character without a visible form is written by its code point in the
shortest of two, four or eight hexadecimal digits.
-/
namespace Reflection.Text

/-- Characters that are shown as they are. -/
def isPrintable (c : Char) : Bool := !unprintableRanges.has c

/-- A number in hexadecimal, filled with zeros to a width. -/
def hexDigits (width n : Nat) : List Char :=
  let digits := (Nat.toDigits 16 n)
  List.replicate (width - digits.length) '0' ++ digits

/-- Form of one character between quotes. -/
def quoteChar (mark c : Char) : List Char :=
  if c = mark ∨ c = '\\' then ['\\', c]
  else if c = '\n' then ['\\', 'n']
  else if c = '\r' then ['\\', 'r']
  else if c = '\t' then ['\\', 't']
  else if isPrintable c then [c]
  else if c.toNat < 0x100 then '\\' :: 'x' :: hexDigits 2 c.toNat
  else if c.toNat < 0x10000 then '\\' :: 'u' :: hexDigits 4 c.toNat
  else '\\' :: 'U' :: hexDigits 8 c.toNat

/-- The quote for a text: double when the text holds a single quote and no double quote. -/
def quoteMark (cs : List Char) : Char :=
  if cs.contains '\'' && !cs.contains '"' then '"' else '\''

/-- A text as messages quote it. -/
def quoted (s : String) : String :=
  let mark := quoteMark s.toList
  String.ofList (mark :: s.toList.flatMap (quoteChar mark) ++ [mark])

end Reflection.Text
