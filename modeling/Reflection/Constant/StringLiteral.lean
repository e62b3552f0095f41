import Reflection.Constant.Fault
import Reflection.Number.IntegerText

/-!
# String literals

A literal is quoted with single or double quotes, or is a heredoc or nowdoc: lines between an opener
and a closing label, whose indentation is taken off each line. Double quotes and heredocs know
escapes; a text that mentions a variable there is not a literal.

## Main definitions

* `decodeSingle`, `decodeDouble`: the text between quotes.
* `Heredoc.ofLiteral?`: the parts of a heredoc or nowdoc.
* `parseString`: the text that a literal denotes.
-/
namespace Reflection

open Reflection.Text Reflection.Number

/-- Between single quotes a backslash escapes itself and the quote. -/
def decodeSingle : List Char → List Char
  | '\\' :: c :: rest =>
    if c = '\\' ∨ c = '\'' then c :: decodeSingle rest else '\\' :: decodeSingle (c :: rest)
  | c :: rest => c :: decodeSingle rest
  | [] => []

/-- A dollar sign with one of these after it begins a variable or an expression. -/
def beginsVariable (c : Char) : Bool := c.isAlpha || c == '_' || c == '\x7b'

/-- A variable or an expression begins in a text, `previous` being the character before it. A
backslash before its first character escapes it. -/
def hasInterpolation (previous : Option Char) : List Char → Bool
  | c :: d :: rest =>
    (previous != some '\\' &&
      ((c == '$' && beginsVariable d) || (c == '\x7b' && d == '$'))) ||
      hasInterpolation (some c) (d :: rest)
  | _ => false

/-- Character of an escape of one letter or sign. -/
def simpleEscape? : Char → Option Char
  | 'n' => some '\n'
  | 'r' => some '\r'
  | 't' => some '\t'
  | 'v' => some '\x0b'
  | 'e' => some '\x1b'
  | 'f' => some '\x0c'
  | '\\' => some '\\'
  | '$' => some '$'
  | '"' => some '"'
  | _ => none

/-- Value of a digit in a base. -/
def digitIn? (base : Nat) (c : Char) : Option Nat :=
  (digitValue? c).filter (· < base)

/-- Values of up to `limit` digits of a base at the start of a text. -/
def leadingDigits (base : Nat) : Nat → List Char → List Nat
  | n + 1, c :: rest =>
    match digitIn? base c with
    | some d => d :: leadingDigits base n rest
    | none => []
  | _, _ => []

/-- The code point with a number. -/
def codePointOf (code : Nat) : Except EvaluationFault CodePoint :=
  match CodePoint.ofNat? code with
  | some p => .ok p
  | none => .error (if 0x7FFFFFFF < code then .hugeCode code else .noCharacter code)

/-- Code point of the escape whose backslash stands before a text, and the number of characters that
it takes of the text; none when the backslash stands for itself. Octal escapes keep their eight
lowest bits. -/
def escape? (cs : List Char) : Option (Nat × Nat) :=
  match cs.head?.bind simpleEscape?, leadingDigits 8 3 cs, cs with
  | some e, _, _ => some (e.toNat, 1)
  | none, d :: digits, _ => some (ofDigits 8 (d :: digits) % 256, digits.length + 1)
  | none, [], 'x' :: rest =>
    match leadingDigits 16 2 rest with
    | [] => none
    | digits => some (ofDigits 16 digits, digits.length + 1)
  | none, [], 'u' :: '\x7b' :: rest =>
    let digits := leadingDigits 16 rest.length rest
    if digits.isEmpty || rest[digits.length]? != some '\x7d' then none
    else some (ofDigits 16 digits, digits.length + 3)
  | none, [], _ => none

/-- The code points that a text with escapes denotes. -/
def decodeEscapes : List Char → Except EvaluationFault (List CodePoint)
  | [] => .ok []
  | c :: rest =>
    match if c = '\\' then escape? rest else none with
    | some (code, used) => do
      let e ← codePointOf code
      let tail ← decodeEscapes (rest.drop used)
      return e :: tail
    | none => (decodeEscapes rest).map (.char c :: ·)
  termination_by cs => cs.length
  decreasing_by
    · simp only [List.length_drop, List.length_cons]; omega
    · exact Nat.lt_succ_self _

/-- Text between double quotes or in a heredoc. -/
def decodeDouble (line : Int) (body : List Char) : Except EvaluationFault CodeText :=
  if hasInterpolation none body then .error (.unsupported .interpolation line)
  else (decodeEscapes body).map CodeText.mk

/-! ## Heredocs and nowdocs -/

/-- Parts of a heredoc or nowdoc: whether its label is in single quotes, the characters of its
lines, and the indentation of its closing label. -/
structure Heredoc where
  literal : Bool
  body : List Char
  indent : List Char

/-- Blanks that indent a line. -/
def isIndent (c : Char) : Bool := c == ' ' || c == '\t'

/-- The text without a line end at its start, a line feed or a carriage return with one. -/
def dropLineEnd : List Char → List Char
  | '\n' :: rest => rest
  | '\r' :: '\n' :: rest => rest
  | cs => cs

/-- Indentation of a closing label, when the text is a closing line: an optional line end,
indentation, the label, and at most one line feed. -/
def closingIndent? (label cs : List Char) : Option (List Char) :=
  let line := dropLineEnd cs
  let rest := line.dropWhile isIndent
  if rest = label ∨ rest = label ++ ['\n'] then some (line.takeWhile isIndent) else none

/-- The characters before the first place where a closing line ends the text, and the indentation of
that line. -/
def spanBody? (label : List Char) : List Char → Option (List Char × List Char)
  | [] => (closingIndent? label []).map ([], ·)
  | c :: rest =>
    match closingIndent? label (c :: rest) with
    | some indent => some ([], indent)
    | none => (spanBody? label rest).map fun (body, indent) => (c :: body, indent)

/-- Characters that may begin the label of a heredoc. -/
def isHeredocStart (c : Char) : Bool := c.isAlpha || c == '_'

/-- The text after a prefix. -/
def dropMark? (mark cs : List Char) : Option (List Char) :=
  if mark.isPrefixOf cs then some (cs.drop mark.length) else none

/-- Parts of a heredoc or nowdoc. -/
def Heredoc.ofLiteral? (cs : List Char) : Option Heredoc := do
  let rest := (← dropMark? "<<<".toList cs).dropWhile isIndent
  let mark := rest.takeWhile fun c => c == '\'' || c == '"'
  let mark := mark.take 1
  let rest := rest.drop mark.length
  let label := rest.takeWhile fun c => isHeredocStart c || c.isDigit
  let rest ← dropMark? mark (rest.drop label.length)
  if !label.head?.any isHeredocStart then none
  else
    let lines := dropLineEnd rest
    if lines.length = rest.length then none
    else
      let (body, indent) ← spanBody? label lines
      some ⟨mark == ['\''], body, indent⟩

/-- A line without the indentation; a line that is indented otherwise loses all of its blanks. -/
def outdent (indent line : List Char) : List Char :=
  match dropMark? indent line with
  | some rest => rest
  | none => line.dropWhile isIndent

/-- Lines of a heredoc without its indentation. -/
def Heredoc.text (h : Heredoc) : List Char :=
  if h.indent.isEmpty then h.body
  else ['\n'].intercalate ((h.body.splitOn '\n').map (outdent h.indent))

/-! ## Literals -/

/-- The text between a quote at the start and the same quote at the end. -/
def between? (mark : Char) (cs : List Char) : Option (List Char) :=
  match cs with
  | c :: rest =>
    if c = mark ∧ rest.getLast? = some mark then some rest.dropLast else none
  | [] => none

/-- A literal in quotes may start with the letter of binary strings. -/
def dropBinaryMark : List Char → List Char
  | b :: q :: rest =>
    if (b = 'b' ∨ b = 'B') ∧ (q = '\'' ∨ q = '"') then q :: rest else b :: q :: rest
  | cs => cs

/-- Text that a literal denotes. -/
def parseString (text : String) (line : Int) : Except EvaluationFault CodeText :=
  let cs := dropBinaryMark text.toList
  match between? '\'' cs, between? '"' cs, Heredoc.ofLiteral? cs with
  | some body, _, _ => .ok (.ofChars (decodeSingle body))
  | _, some body, _ => decodeDouble line body
  | _, _, some h =>
    if h.literal then .ok (.ofChars h.text) else decodeDouble line h.text
  | _, _, none => .error (.unsupported (.unsupportedString (String.ofList cs)) line)

end Reflection
