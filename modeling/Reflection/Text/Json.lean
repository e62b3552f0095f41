import Reflection.Number.IntegerText

/-!
# JSON

Reading of JSON texts. Numbers are told from other values, but their magnitude is of no account
here; besides the standard ones, the names of infinity and of the undefined number are numbers.

## Main definitions

* `Json`: values.
* `Json.parse?`: the value that a text denotes.
-/
namespace Reflection.Text

open Reflection.Number

/-- Values of JSON, numbers without their magnitude. -/
inductive Json
  | null
  | bool (b : Bool)
  | number
  | text (s : String)
  | list (items : List Json)
  | object (fields : List (String × Json))
  deriving Inhabited

namespace Json

/-- White space between the tokens of JSON. -/
def isJsonSpace (c : Char) : Bool := c == ' ' || c == '\t' || c == '\n' || c == '\r'

/-- Skips white space. -/
def skip (cs : List Char) : List Char := cs.dropWhile isJsonSpace

/-- Character of a short escape. -/
def shortEscape? : Char → Option Char
  | '"' => some '"'
  | '\\' => some '\\'
  | '/' => some '/'
  | 'b' => some '\x08'
  | 'f' => some '\x0c'
  | 'n' => some '\n'
  | 'r' => some '\r'
  | 't' => some '\t'
  | _ => none

/-- Number that four hexadecimal digits denote. -/
def hexUnit? (a b c d : Char) : Option Nat := do
  let digits ← [a, b, c, d].mapM digitValue?
  if digits.all (· < 16) then some (ofDigits 16 digits) else none

/-- Character of a UTF-16 unit that stands alone; half of a pair gives the replacement
character. -/
def unitChar (unit : Nat) : Char :=
  if 0xD800 ≤ unit ∧ unit ≤ 0xDFFF then '\uFFFD' else Char.ofNat unit

/-- Characters of a string up to its closing quote, and what follows. -/
def stringTail? : List Char → Option (List Char × List Char)
  | [] => none
  | '"' :: rest => some ([], rest)
  | '\\' :: 'u' :: a :: b :: c :: d :: '\\' :: 'u' :: e :: f :: g :: h :: rest => do
    let high ← hexUnit? a b c d
    let low ← hexUnit? e f g h
    if 0xD800 ≤ high ∧ high ≤ 0xDBFF ∧ 0xDC00 ≤ low ∧ low ≤ 0xDFFF then
      let (tail, left) ← stringTail? rest
      some (Char.ofNat (0x10000 + (high - 0xD800) * 0x400 + (low - 0xDC00)) :: tail, left)
    else
      let (tail, left) ← stringTail? ('\\' :: 'u' :: e :: f :: g :: h :: rest)
      some (unitChar high :: tail, left)
  | '\\' :: 'u' :: a :: b :: c :: d :: rest => do
    let unit ← hexUnit? a b c d
    let (tail, left) ← stringTail? rest
    some (unitChar unit :: tail, left)
  | '\\' :: c :: rest => do
    let e ← shortEscape? c
    let (tail, left) ← stringTail? rest
    some (e :: tail, left)
  | c :: rest =>
    if c.toNat < 0x20 ∨ c = '\\' then none
    else do
      let (tail, left) ← stringTail? rest
      some (c :: tail, left)

/-- Digits of a whole number without needless zeros, and what follows. -/
def skipWhole? (cs : List Char) : Option (List Char) :=
  match cs with
  | '0' :: rest => some rest
  | c :: rest => if c.isDigit then some (rest.dropWhile Char.isDigit) else none
  | [] => none

/-- What follows an optional fraction. -/
def skipFraction (cs : List Char) : List Char :=
  match cs with
  | '.' :: c :: rest => if c.isDigit then rest.dropWhile Char.isDigit else cs
  | _ => cs

/-- What follows an optional exponent. -/
def skipExponent (cs : List Char) : List Char :=
  match cs with
  | e :: rest =>
    if e = 'e' ∨ e = 'E' then
      let digits := match rest with
        | '+' :: rest => rest
        | '-' :: rest => rest
        | rest => rest
      if digits.head?.any Char.isDigit then digits.dropWhile Char.isDigit else cs
    else cs
  | [] => cs

/-- What follows the number at the start of a text. The digits of an integer, which has neither a
fraction nor an exponent, are limited in number. -/
def skipNumber? (cs : List Char) : Option (List Char) :=
  let unsigned := match cs with
    | '-' :: rest => rest
    | cs => cs
  (skipWhole? unsigned).bind fun rest =>
    let left := skipExponent (skipFraction rest)
    if left.length = rest.length ∧ maxDecimalDigits < unsigned.length - rest.length then none
    else some left

/-- The names that stand for values, with these values. -/
def names : List (String × Json) := [
  ("null", null), ("true", bool true), ("false", bool false), ("NaN", number),
  ("Infinity", number), ("-Infinity", number)]

/-- Value at the start of a text that is no list and no object, and what follows. -/
def scalar? (cs : List Char) : Option (Json × List Char) :=
  match names.find? fun (name, _) => name.toList.isPrefixOf cs with
  | some (name, v) => some (v, cs.drop name.length)
  | none =>
    match cs with
    | '"' :: rest => (stringTail? rest).map fun (s, left) => (text (String.ofList s), left)
    | cs => (skipNumber? cs).map (number, ·)

mutual

/-- Value at the start of a text, and what follows. Each step takes at least one character, so
their number is bounded by the length of the text. -/
def value? : Nat → List Char → Option (Json × List Char)
  | 0, _ => none
  | fuel + 1, cs =>
    match skip cs with
    | '[' :: rest =>
      match skip rest with
      | ']' :: left => some (list [], left)
      | rest => do
        let (items, left) ← items? fuel rest
        some (list items, left)
    | '\x7b' :: rest =>
      match skip rest with
      | '\x7d' :: left => some (object [], left)
      | rest => do
        let (fields, left) ← fields? fuel rest
        some (object fields, left)
    | rest => scalar? rest

/-- Items of a list up to its closing bracket. -/
def items? : Nat → List Char → Option (List Json × List Char)
  | 0, _ => none
  | fuel + 1, cs => do
    let (item, rest) ← value? fuel cs
    match skip rest with
    | ',' :: rest =>
      let (items, left) ← items? fuel rest
      some (item :: items, left)
    | ']' :: left => some ([item], left)
    | _ => none

/-- Fields of an object up to its closing brace. -/
def fields? : Nat → List Char → Option (List (String × Json) × List Char)
  | 0, _ => none
  | fuel + 1, cs =>
    match skip cs with
    | '"' :: rest => do
      let (key, rest) ← stringTail? rest
      match skip rest with
      | ':' :: rest =>
        let (v, rest) ← value? fuel rest
        match skip rest with
        | ',' :: rest =>
          let (fields, left) ← fields? fuel rest
          some ((String.ofList key, v) :: fields, left)
        | '\x7d' :: left => some ([(String.ofList key, v)], left)
        | _ => none
      | _ => none
    | _ => none

end

/-- Value that a whole text denotes. -/
def parse? (s : String) : Option Json := do
  let (v, left) ← value? (2 * s.length + 2) s.toList
  if (skip left).isEmpty then some v else none

end Json
end Reflection.Text
