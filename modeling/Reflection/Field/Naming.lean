import Reflection.Text.Blank
import Reflection.Text.Case

/-!
# Names of fields and of their accessors

The underscores at the start of a declared name tell who may use the field: none for a public one,
one for a protected one, two for a private one, unless the name also ends in two. A field is asked
for by its public name, the declared name without these underscores. A private field is stored under
a name that holds the name of its class, so that the classes of one object do not share it.

## Main definitions

* `publicName`, `Visibility.ofName`.
* `storedName`, `declaredName`: from a declared name to the stored one, and back.
* `accessorNames`: names of the methods that may get or set a field.
-/
namespace Reflection

open Reflection.Text

/-- Who may use a field or method. -/
inductive Visibility
  | publicKind
  | protectedKind
  | privateKind
  deriving DecidableEq, Repr

/-- Word for a visibility. -/
def Visibility.label : Visibility → String
  | publicKind => "public"
  | protectedKind => "protected"
  | privateKind => "private"

/-- Start of the names of private fields. -/
def privateMark : List Char := ['_', '_']

/-- Visibility of a declared name. -/
def Visibility.ofName (name : String) : Visibility :=
  if privateMark.isPrefixOf name.toList then
    if privateMark.isSuffixOf name.toList then publicKind else privateKind
  else if name.toList.head? = some '_' then protectedKind
  else publicKind

namespace Field

/-- Name by which a field is asked for. -/
def publicName (name : String) : String := trimStart (· == '_') name

/-- Name under which objects hold a field that a class declares. Nothing is added for a class whose
name consists of underscores. -/
def storedName (className declared : String) : String :=
  let owner := publicName className
  if Visibility.ofName declared = .privateKind ∧ owner ≠ "" then "_" ++ owner ++ declared
  else declared

/-- Name that a class declares, from the name under which objects hold the field. -/
def declaredName (className stored : String) : String :=
  let mark := ("_" ++ publicName className ++ "__").toList
  if mark.isPrefixOf stored.toList ∧ mark.length < stored.length then
    "__" ++ String.ofList (stored.toList.drop mark.length)
  else stored

/-- Names of the methods that may serve a verb for a field: the words of its name joined by
underscores, then each word with a capital letter. -/
def accessorNames (verb name : String) : List String :=
  let name := publicName name
  let words := ((name.toList.splitOn '_').filter (!·.isEmpty)).map String.ofList
  [verb ++ "_" ++ name, verb ++ String.join (words.map capitalize)]

end Field
end Reflection
