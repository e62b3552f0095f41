import Reflection.Field.Visit

/-!
# Field service

The service serves requests for the fields of classes and objects with its verbs, and keeps the
classes that it was asked for, or that it looked at, in its cache. What a request gives does not
depend on the cache.

## Main definitions

* `FieldService`, `ClassTarget`.
* `FieldService.findField`, `FieldService.bind`: requests about classes.
* `FieldService.getValue`, `FieldService.getValues`, `FieldService.setValue`,
  `FieldService.setValues`: requests about objects.
-/
namespace Reflection

/-- Verbs for accessor methods, and the classes that were asked for. -/
structure FieldService where
  verbs : Verbs
  cache : ClassCache := {}

/-- The class that a request is about. For a class that is known already the cache is not asked, nor
for its ancestors. -/
structure ClassTarget where
  type : ClassId
  known : Bool := false
  deriving DecidableEq, Repr

namespace FieldService

/-- The service with other verbs for methods that read. -/
def setReadVerbs (s : FieldService) (verbs : List String) : FieldService :=
  { s with verbs := { s.verbs with read := verbs } }

/-- The service with other verbs for methods that write. -/
def setWriteVerbs (s : FieldService) (verbs : List String) : FieldService :=
  { s with verbs := { s.verbs with write := verbs } }

/-- The service with an empty cache. -/
def clear (s : FieldService) : FieldService := { s with cache := s.cache.clear }

/-- The service after it was asked for classes. -/
def visit (s : FieldService) (t : ClassTable) (cs : List ClassId) : FieldService :=
  { s with cache := s.cache.visitAll t cs }

/-- The service after it was asked for the class of a target and for what is looked at besides. -/
def look (s : FieldService) (t : ClassTable) (target : ClassTarget)
    (visits : List ClassId := []) : FieldService :=
  if target.known then s else s.visit t (target.type :: visits)

/-- Finds the field that a name means. -/
def findField (s : FieldService) (t : ClassTable) (target : ClassTarget) (name : String) :
    FieldService × Option Field :=
  (s.look t target (t.findVisits target.type name), t.findField? target.type name)

/-- Chooses the binding of a name. -/
def bind (s : FieldService) (t : ClassTable) (target : ClassTarget) (name : String)
    (flags : AccessFlags) : FieldService × Except AccessFault Binding :=
  let c := target.type
  let located := s.look t target (t.locateVisits c name flags.exposesInherited)
  (located.visit t (t.bindVisits s.verbs c (Field.publicName name)
    (t.locate? c name flags.exposesInherited) flags), t.bindName s.verbs c name flags)

/-- The service after the binding of a name for an object of a class was chosen. -/
def lookName (s : FieldService) (t : ClassTable) (c : ClassId) (name : String)
    (flags : AccessFlags) : FieldService := (s.bind t ⟨c, false⟩ name flags).1

/-- Reads a field of an object of a class. -/
def getValue (s : FieldService) (t : ClassTable) (c : ClassId) (reference : FieldReference)
    (flags : AccessFlags) (default : Value) : FieldService × Access Value :=
  let after := match reference with
    | .name name => s.lookName t c name flags
    | .field f => s.look t ⟨c, false⟩ (t.bindVisits s.verbs c f.name (some f) flags)
    | .binding _ => s
  (after, Access.getValue t s.verbs reference flags default)

/-- Reads all fields of an object of a class. -/
def getValues (s : FieldService) (t : ClassTable) (c : ClassId) (flags : AccessFlags) :
    FieldService × Access (Table String Value) :=
  (s.look t ⟨c, false⟩ (t.valuesVisits s.verbs c flags), Access.getValues t s.verbs flags)

/-- Writes a field of an object of a class. -/
def setValue (s : FieldService) (t : ClassTable) (c : ClassId) (name : String) (v : Value)
    (flags : AccessFlags) : FieldService × Access Unit :=
  (s.lookName t c name flags, Access.setValue t s.verbs name v flags)

/-- Writes several fields of an object of a class. -/
def setValues (s : FieldService) (t : ClassTable) (c : ClassId) (values : Table String Value)
    (flags : AccessFlags) : FieldService × Access Unit :=
  ((Table.keys values).foldl (fun s name => s.lookName t c name flags) (s.look t ⟨c, false⟩),
    Access.setValues t s.verbs values flags)

end FieldService
end Reflection
