import Reflection.Class.Cache
import Reflection.Field.Access

/-!
# Classes that requests look at

A request for a field asks the cache for the classes that it looks at besides the one it is made
for: ancestors where the class does not declare the field, and the class that declares the field
where the other one has no accessor method.
-/
namespace Reflection.ClassTable

/-- Classes that are looked at to find the field that a name means. -/
def findVisits (t : ClassTable) (c : ClassId) (name : String) : List ClassId :=
  if Table.contains (t.ownFields c) (Field.publicName name) then [] else t.ancestors c

/-- Classes that are looked at to locate the field of a request. -/
def locateVisits (t : ClassTable) (c : ClassId) (name : String) (inherited : Bool) :
    List ClassId :=
  t.findVisits c name ++
    if (t.findField? c name).isSome || !inherited then []
    else
      match h : t.parent? c with
      | none => []
      | some p =>
        have := parent_lt h
        p :: t.locateVisits p name inherited
  termination_by c

/-- The class that declares a field, if it is looked at for an accessor method. -/
def accessorVisits (c : ClassId) (field : Option Field) (find : ClassId → Option MethodHandle) :
    List ClassId :=
  if (find c).isSome then []
  else (field.map (·.owner.id)).toList.filter (· != c)

/-- Classes that are looked at for the accessor methods of a field. -/
def bindVisits (t : ClassTable) (verbs : Verbs) (c : ClassId) (name : String)
    (field : Option Field) (flags : AccessFlags) : List ClassId :=
  (if flags.permitsReader then accessorVisits c field (t.reader? verbs name) else []) ++
    (if flags.permitsWriter then accessorVisits c field (t.writer? verbs name) else [])

/-- Classes that are looked at for the values of all fields. -/
def valuesVisits (t : ClassTable) (verbs : Verbs) (c : ClassId) (flags : AccessFlags) :
    List ClassId :=
  (t.parent? c).toList ++ (Access.levels t c flags.withoutNeeds).flatMap fun (level, flags) =>
    t.ancestors level ++
      (t.fields level).flatMap fun f => t.bindVisits verbs c f.name (some f) flags

end Reflection.ClassTable
