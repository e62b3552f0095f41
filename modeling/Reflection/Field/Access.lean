import Reflection.Field.Policy

/-!
# Reading and writing fields

Fields of an object are read and written one at a time or all together, each through the binding
that the request gets for it.

## Main definitions

* `Access.getValue`, `Access.setValue`: one field.
* `Access.getValues`, `Access.setValues`: several fields.
-/
namespace Reflection

/-- What a request to read means: a name, a field, or a binding chosen before. -/
inductive FieldReference
  | name (s : String)
  | field (f : Field)
  | binding (b : Binding)

namespace Access

variable (t : ClassTable) (verbs : Verbs)

/-- The result of a computation without effect. -/
def ofExcept {α : Type} : Except AccessFault α → Access α
  | .ok a => pure a
  | .error e => throw e

/-- The binding that a request gets for the object. -/
def bindingOf (reference : FieldReference) (flags : AccessFlags) : Access Binding := do
  let c := (← get).type
  match reference with
  | .name s => ofExcept (t.bindName verbs c s flags)
  | .field f => ofExcept (t.bind verbs c f.name (some f) flags)
  | .binding b => return b

/-- Reads a field; where it cannot be read and need not be, the value is a given one. -/
def getValue (reference : FieldReference) (flags : AccessFlags) (default : Value) :
    Access Value := do
  let b ← bindingOf t verbs reference flags
  if b.canRead then b.read t
  else if flags.needsRead then throw (.notReadable b.owner b.name)
  else return default

/-- Writes a field. -/
def setValue (name : String) (v : Value) (flags : AccessFlags) : Access Unit := do
  (← bindingOf t verbs (.name name) flags).write t v

/-- The classes whose fields are read, ancestors before their descendants, and the flags for each.
Hidden fields of ancestors are read. -/
def levels (c : ClassId) (flags : AccessFlags) : List (ClassId × AccessFlags) :=
  (if flags.exposesInherited then (t.ancestors c).reverse.map (·, flags.exposing) else []) ++
    [(c, flags)]

/-- Reads one of all fields, if it can be read. -/
def getReadable (c : ClassId) (values : Table String Value) (request : Field × AccessFlags) :
    Access (Table String Value) := do
  let (f, flags) := request
  let b ← ofExcept (t.bind verbs c f.name (some f) flags)
  if b.canRead then return Table.insert values f.name (← b.read t) else return values

/-- Reads all fields that can be read, by name. -/
def getValues (flags : AccessFlags) : Access (Table String Value) := do
  let c := (← get).type
  let requests := (levels t c flags.withoutNeeds).flatMap fun (level, flags) =>
    (t.fields level).map (·, flags)
  requests.foldlM (getReadable t verbs c) []

/-- Writes several fields one after the other; those that cannot be written are passed over. -/
def setValues (values : Table String Value) (flags : AccessFlags) : Access Unit :=
  values.forM fun (name, v) => tryCatch (setValue t verbs name v flags) fun _ => pure ()

end Access
end Reflection
