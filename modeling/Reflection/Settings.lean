import Reflection.Number.IntegerText
import Reflection.Text.Case
import Reflection.Text.Json

/-!
# Settings

The settings have defaults, and each of them can be given by a variable of the environment: lists
as JSON, switches by a word, numbers in decimal.

## Main definitions

* `Settings`: the settings with their defaults.
* `Settings.ofEnvironment`: the settings that an environment gives.
-/
namespace Reflection

open Reflection.Text Reflection.Number

/-- The settings of a program. -/
structure Settings where
  readPrefixes : List String := ["get", "is"]
  writePrefixes : List String := ["set", "is"]
  encoding : String := "utf-8"
  evaluatesConstants : Bool := false
  maxNesting : Nat := 32
  deriving DecidableEq, Repr

/-- Why an environment gives no settings. -/
inductive SettingsFault
  /-- No variable can have the name or the text. -/
  | notVariable (name : String)
  /-- The text of a list is not JSON. -/
  | unreadable (name : String)
  /-- A value is not of the kind or in the range of its setting. -/
  | invalid (name : String)
  deriving DecidableEq, Repr

namespace Settings

/-- Start of the names of all variables. -/
def variablePrefix : String := "SCOPELENS_"

/-- Text of a variable of the environment; letter case is of no account in its name, and of several
spellings the last one counts. -/
def find? (environment : List (String × String)) (name : String) : Option String :=
  (environment.reverse.find? fun v => lower v.1 == lower (variablePrefix ++ name)).map Prod.snd

/-- Whether a variable can have the name and the text: neither holds the character NUL, and the name
holds no equals sign. -/
def isVariable (v : String × String) : Bool :=
  !v.1.toList.any (fun c => c == '\x00' || c == '=') && !v.2.toList.contains '\x00'

/-- Words that switch a setting off. -/
def offWords : List String := ["0", "off", "f", "false", "n", "no"]

/-- Words that switch a setting on. -/
def onWords : List String := ["1", "on", "t", "true", "y", "yes"]

/-- Meaning of the word for a switch, in any letter case. -/
def readSwitch? (s : String) : Option Bool :=
  let word := String.ofList (s.toList.map Char.toLower)
  if word ∈ offWords then some false else if word ∈ onWords then some true else none

/-- A decimal point with zeros after it, at least one, or nothing at all. -/
def isZeroFraction : List Char → Bool
  | [] => true
  | '.' :: zeros => !zeros.isEmpty && zeros.all (· == '0')
  | _ => false

/-- Positive number that a text denotes in decimal, with a fraction of zeros at most. White space may
stand around it, and a plus sign and zeros before it. Low lines separate digits, one at a time;
among the zeros at the start there may be any number of them. -/
def readPositive? (s : String) : Option Nat :=
  let signed := (trim isSpace s).toList
  let cs := if signed.head? = some '+' then signed.tail else signed
  let cs := if cs.head? = some '0' then cs.dropWhile fun c => c == '0' || c == '_' else cs
  let whole := cs.takeWhile (· != '.')
  if isZeroFraction (cs.drop whole.length) then (readNatural? 10 whole).filter (0 < ·) else none

/-- Items of a list of texts. -/
def textItems? : Json → Option (List String)
  | .list items => items.mapM fun
    | .text s => some s
    | _ => none
  | _ => none

/-- JSON value of a variable. The value null counts as no variable. -/
def readJson (environment : List (String × String)) (name : String) :
    Except SettingsFault (Option Json) :=
  match find? environment name with
  | none => .ok none
  | some s =>
    match Json.parse? s with
    | some .null => .ok none
    | some v => .ok (some v)
    | none => .error (.unreadable name)

/-- The value of a setting: the default without a variable, and otherwise what `read` makes of the
text of the variable. -/
def setting {α β : Type} (name : String) (default : α) (read : β → Option α) :
    Option β → Except SettingsFault α
  | none => .ok default
  | some b =>
    match read b with
    | some a => .ok a
    | none => .error (.invalid name)

/-- The settings that an environment gives. -/
def ofEnvironment (environment : List (String × String)) : Except SettingsFault Settings := do
  if let some v := environment.find? (!isVariable ·) then throw (.notVariable v.1)
  let defaults : Settings := {}
  let readers ← readJson environment "READ_METHOD_PREFIXES"
  let writers ← readJson environment "WRITE_METHOD_PREFIXES"
  let readPrefixes ← setting "READ_METHOD_PREFIXES" defaults.readPrefixes textItems? readers
  let writePrefixes ← setting "WRITE_METHOD_PREFIXES" defaults.writePrefixes textItems? writers
  let encoding ← setting "SOURCE_ENCODING" defaults.encoding some
    (find? environment "SOURCE_ENCODING")
  let evaluatesConstants ← setting "EVALUATE_CONSTANTS" defaults.evaluatesConstants readSwitch?
    (find? environment "EVALUATE_CONSTANTS")
  let maxNesting ← setting "MAX_ARRAY_NESTING" defaults.maxNesting
    (fun s => (readPositive? s).filter (· ≤ 256))
    (find? environment "MAX_ARRAY_NESTING")
  return { readPrefixes, writePrefixes, encoding, evaluatesConstants, maxNesting }

/-- Number of brackets that an expression may have open at once: the given number, or the setting
where none or zero is given. -/
def roomFor (settings : Settings) (maxNesting : Option Int) : Nat :=
  match maxNesting with
  | none => settings.maxNesting
  | some n => if n = 0 then settings.maxNesting else n.toNat

end Settings
end Reflection
