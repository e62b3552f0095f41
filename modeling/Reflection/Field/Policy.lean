import Reflection.Field.Binding
import Reflection.Field.Flags
import Reflection.Field.Listing

/-!
# Access policy

Which binding a request for a field gets depends on the visibility of the field, on the accessor
methods that are found by their names, and on the flags of the request.

## Main definitions

* `Verbs`, `ClassTable.reader?`, `ClassTable.writer?`: accessor methods.
* `ClassTable.locate?`: the field that a request means.
* `ClassTable.bind`: the binding of a field, `ClassTable.bindName`: that of a name.
-/
namespace Reflection

/-- Verbs with which the names of accessor methods start. -/
structure Verbs where
  read : List String
  write : List String
  deriving DecidableEq, Repr

namespace ClassTable

/-- The method of a class that reads a field: the first one that has a name for one of the verbs. -/
def reader? (t : ClassTable) (verbs : Verbs) (name : String) (c : ClassId) : Option MethodHandle :=
  (verbs.read.flatMap (Field.accessorNames · name)).findSome? (t.findMethod? c)

/-- The method of a class that writes a field: the first one that has a name for one of the verbs
and can be given an argument. -/
def writer? (t : ClassTable) (verbs : Verbs) (name : String) (c : ClassId) : Option MethodHandle :=
  (verbs.write.flatMap (Field.accessorNames · name)).findSome? fun method =>
    (t.findMethod? c method).filter (0 < ·.method.parameterCount)

/-- The accessor method of the class that is asked, or else of the class that declares the field. -/
def accessor? (c : ClassId) (field : Option Field) (find : ClassId → Option MethodHandle) :
    Option MethodHandle :=
  (find c).or (field.bind fun f => if f.owner.id = c then none else find f.owner.id)

/-- The field that a name means in a class or, where that is permitted, in the nearest ancestor in
which it means one. -/
def locate? (t : ClassTable) (c : ClassId) (name : String) (inherited : Bool) : Option Field :=
  (c :: if inherited then t.ancestors c else []).findSome? (t.findField? · name)

end ClassTable

namespace AccessFlags

/-- A request may read a field through a method. -/
def usesReader (flags : AccessFlags) (field : Option Field) : Bool :=
  flags.permitsReader && (flags.forcesReader || !field.any Field.isPublic)

/-- A request may write a field through a method. -/
def usesWriter (flags : AccessFlags) (field : Option Field) : Bool :=
  flags.permitsWriter && (flags.forcesWriter || !field.any Field.isPublic)

/-- The handle of a field as it is after a request. -/
def exposed (flags : AccessFlags) (f : Field) : Field :=
  if flags.exposesHidden && !f.isPublic then f.expose else f

end AccessFlags

namespace ClassTable

/-- The binding of a field, or of a name for which there is no field, in a class. -/
def bind (t : ClassTable) (verbs : Verbs) (c : ClassId) (name : String) (field : Option Field)
    (flags : AccessFlags) : Except AccessFault Binding :=
  let reader := if flags.usesReader field then accessor? c field (t.reader? verbs name) else none
  let writer := if flags.usesWriter field then accessor? c field (t.writer? verbs name) else none
  let field := field.map flags.exposed
  let accessible := field.any (·.accessible)
  if flags.needsRead && reader.isNone && !accessible then .error (.notReadable (t.fullName c) name)
  else if flags.needsWrite && writer.isNone && !accessible then
    .error (.notWritable (t.fullName c) name)
  else if reader.isSome || writer.isSome then
    .ok (.methods (t.fullName c) name reader writer field)
  else
    match field with
    | some f => .ok (if f.accessible then .direct f else .unresolved (t.fullName c) name (some f))
    | none => .ok (.unresolved (t.fullName c) name none)

/-- The binding of a name in a class. -/
def bindName (t : ClassTable) (verbs : Verbs) (c : ClassId) (name : String) (flags : AccessFlags) :
    Except AccessFault Binding :=
  t.bind verbs c (Field.publicName name) (t.locate? c name flags.exposesInherited) flags

end ClassTable
end Reflection
