import Reflection.Field
import Reflection.Instance.Call

/-!
# Bindings of fields

A binding says how a field is read and written: directly, through accessor methods, with the field
itself where there is no method, or not at all.

## Main definitions

* `Binding`.
* `Binding.canRead`, `Binding.read`, `Binding.canWrite`, `Binding.write`.
-/
namespace Reflection

/-- How a field is read and written. Where it is not read and written directly, the binding names
the class that was asked and the field. -/
inductive Binding
  | direct (field : Field)
  | methods (owner name : String) (reader writer : Option MethodHandle) (field : Option Field)
  | unresolved (owner name : String) (field : Option Field)

namespace Binding

/-- Class that the binding is about. -/
def owner : Binding → String
  | direct f => f.owner.fullName
  | methods owner .. | unresolved owner .. => owner

/-- Name of the field. -/
def name : Binding → String
  | direct f => f.name
  | methods _ name .. | unresolved _ name _ => name

/-- The field itself. -/
def field? : Binding → Option Field
  | direct f => some f
  | methods _ _ _ _ f | unresolved _ _ f => f

/-- The method that reads. -/
def reader? : Binding → Option MethodHandle
  | methods _ _ reader _ _ => reader
  | _ => none

/-- The method that writes. -/
def writer? : Binding → Option MethodHandle
  | methods _ _ _ writer _ => writer
  | _ => none

/-- The field itself gives access. -/
def isAccessible (b : Binding) : Bool := b.field?.any (·.accessible)

/-- The field can be read. -/
def canRead (b : Binding) : Bool := b.reader?.isSome || b.isAccessible

/-- The field can be written. -/
def canWrite (b : Binding) : Bool := b.writer?.isSome || b.isAccessible

/-- Anybody may use the field, or a method where there is no field. -/
def isPublic : Binding → Bool
  | direct f => f.isPublic
  | methods _ _ _ _ (some f) => f.isPublic
  | methods _ _ reader writer none =>
    (reader.or writer).any fun m => Visibility.ofName m.name == .publicKind
  | unresolved .. => false

/-- Documentation of the field: that of the first method that has one, or else its type hint. -/
def docText? : Binding → Option String
  | direct f => f.hint.text?
  | methods _ _ reader writer f =>
    (([reader, writer].findSome? fun m => (m.bind (·.method.docText?)).filter (· != ""))).or
      (f.bind (·.hint.text?))
  | unresolved .. => none

/-- Reads the field of the object. -/
def read (t : ClassTable) (b : Binding) : Access Value :=
  match b.reader?, b.field? with
  | some m, _ => m.invoke t []
  | none, some f => f.read t
  | none, none => throw (.notReadable b.owner b.name)

/-- Writes the field of the object. -/
def write (t : ClassTable) (b : Binding) (v : Value) : Access Unit :=
  match b.writer?, b.field? with
  | some m, _ => do let _ ← m.invoke t [v]
  | none, some f => f.write t v
  | none, none => throw (.notWritable b.owner b.name)

end Binding
end Reflection
