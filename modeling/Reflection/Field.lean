import Reflection.Instance

/-!
# Fields

A field handle refers to a field that a class declares. A public field can always be read and
written; any other one only through a handle that was made accessible, which affects no other
handle.

## Main definitions

* `Field`, `Field.expose`, `Field.fresh`.
* `Field.read`, `Field.write`.
-/
namespace Reflection

/-- A handle on a field: the class that declares it, its declared name, its type hint, and whether
the handle gives access to it. -/
structure Field where
  owner : ClassIdentity
  declared : String
  hint : TypeHint
  accessible : Bool
  deriving DecidableEq, Repr

namespace Field

/-- Name by which the field is asked for. -/
def name (f : Field) : String := publicName f.declared

/-- Who may use the field. -/
def visibility (f : Field) : Visibility := .ofName f.declared

/-- Name under which objects hold the field. -/
def stored (f : Field) : String := storedName f.owner.name f.declared

/-- Anybody may use the field. -/
def isPublic (f : Field) : Bool := f.visibility == .publicKind

/-- Only the class itself may use the field. -/
def isPrivate (f : Field) : Bool := f.visibility == .privateKind

/-- A new handle on the field of a class. -/
def ofDeclared (owner : ClassIdentity) (declared : String) (hint : TypeHint) : Field :=
  ⟨owner, declared, hint, Visibility.ofName declared == .publicKind⟩

/-- A new handle on the field of a handle. -/
def fresh (f : Field) : Field := ofDeclared f.owner f.declared f.hint

/-- The handle, made accessible. -/
def expose (f : Field) : Field := { f with accessible := true }

/-- Reads the field of the object. -/
def read (t : ClassTable) (f : Field) : Access Value :=
  if f.accessible then Access.getAttribute t f.stored
  else throw (.notReadable f.owner.fullName f.name)

/-- Writes the field of the object. -/
def write (t : ClassTable) (f : Field) (v : Value) : Access Unit :=
  if f.accessible then Access.setAttribute t f.stored v
  else throw (.notWritable f.owner.fullName f.name)

@[simp] theorem accessible_fresh (f : Field) : f.fresh.accessible = f.isPublic := rfl

@[simp] theorem accessible_expose (f : Field) : f.expose.accessible = true := rfl

@[simp] theorem name_fresh (f : Field) : f.fresh.name = f.name := rfl

@[simp] theorem name_expose (f : Field) : f.expose.name = f.name := rfl

end Field
end Reflection
