import Reflection.Declaration
import Reflection.Name

/-!
# Index of declarations

The declarations of a file by kind and name, in the order of their first appearance. Declaring a
name again replaces what it stood for, except that a namespace keeps its first declaration.

## Main definitions

* `DeclarationIndex`, `DeclarationIndex.add`.
* `DeclarationIndex.lookup?`: the key of a qualified or local name.
* `DeclarationIndex.imports`: imported names by alias.
-/
namespace Reflection

/-- Declarations by kind and name, each with what it stands for. -/
structure DeclarationIndex where
  entries : Table (DeclarationKind × String) (Definition × Declaration) := []
  deriving Inhabited

namespace DeclarationIndex

/-- Entry of a kind and name. -/
def find? (index : DeclarationIndex) (kind : DeclarationKind) (name : String) :
    Option (Definition × Declaration) := Table.find? index.entries (kind, name)

/-- A name is declared under a kind. -/
def contains (index : DeclarationIndex) (kind : DeclarationKind) (name : String) : Bool :=
  (index.find? kind name).isSome

/-- What a name stands for under a kind. -/
def value? (index : DeclarationIndex) (kind : DeclarationKind) (name : String) :
    Option Definition := (index.find? kind name).map Prod.fst

/-- Declaration of a name under a kind. -/
def declaration? (index : DeclarationIndex) (kind : DeclarationKind) (name : String) :
    Option Declaration := (index.find? kind name).map Prod.snd

/-- The constant declared under a name. -/
def constant? (index : DeclarationIndex) (name : String) : Option Constant :=
  match index.value? .constKind name with
  | some (.constant c) => some c
  | _ => none

/-- Warning about a declaration that replaces another one. -/
def redeclared (d : Declaration) : String :=
  s!"{d.kind.label} {d.name} declared again at line {d.line}, previous declaration is discarded"

/-- Adds a declaration, with a warning where it replaces one. -/
def add (index : DeclarationIndex) (d : Declaration) (definition : Definition) :
    DeclarationIndex × List String :=
  let present := index.contains d.kind d.name
  if present && d.kind == .namespaceKind then (index, [])
  else
    (⟨Table.insert index.entries (d.kind, d.name) (definition, d)⟩,
      if present then [redeclared d] else [])

/-- Entries of a kind by name, in order. -/
def ofKind (index : DeclarationIndex) (kind : DeclarationKind) :
    List (String × Definition × Declaration) :=
  index.entries.filterMap fun (key, entry) =>
    if key.1 = kind then some (key.2, entry) else none

/-- Names declared under a kind, in order. -/
def names (index : DeclarationIndex) (kind : DeclarationKind) : List String :=
  (index.ofKind kind).map Prod.fst

/-- Names declared under a kind with what they stand for, in order. -/
def elements (index : DeclarationIndex) (kind : DeclarationKind) : List (String × Definition) :=
  (index.ofKind kind).map fun (name, definition, _) => (name, definition)

/-- Key of a name under a kind. A name without separator is also looked for in the namespaces of the
file, in order. -/
def lookup? (index : DeclarationIndex) (kind : DeclarationKind) (name : String) : Option String :=
  if index.contains kind name then some name
  else if Name.isQualified name then none
  else ((index.names .namespaceKind).map (Name.join · name)).find? (index.contains kind)

/-- Imported names by alias. -/
def imports (index : DeclarationIndex) : Table String String :=
  Table.ofEntries ((index.elements .useKind).filterMap fun
    | (name, .text localName) => some (localName, name)
    | _ => none)

end DeclarationIndex
end Reflection
