import Reflection.Field

/-!
# Fields of a class

A class declares the names that have a type hint, variables of the class left out, and its slots; where
two of them have the same public name the first one counts. It inherits the fields of its ancestors
that are not private and that no nearer class declares. The ancestors are reached from parent to
parent, the parent of a class being the class after it in its lineage.

## Main definitions

* `ClassTable.ownFields`, `ClassTable.ancestors`.
* `ClassTable.findField?`: the field that a name means.
* `ClassTable.fields`: all fields of a class.
-/
namespace Reflection.ClassTable

/-- Names and hints that make the fields of a class, in order. -/
def declarations (r : ClassRecord) : List (String × TypeHint) :=
  (r.hints.filterMap fun (stored, hint) =>
    if hint.isClassVariable then none
    else some (Field.declaredName r.identity.name stored, hint)) ++
  r.attributeSlots.map (·, TypeHint.none)

/-- The table with a field under its name, unless the name is taken. -/
def addField (fields : Table String Field) (f : Field) : Table String Field :=
  if Table.contains fields f.name then fields else Table.insert fields f.name f

/-- The fields that a class declares, by name. -/
def ownFields (t : ClassTable) (c : ClassId) : Table String Field :=
  match t.record? c with
  | none => []
  | some r => ((declarations r).map fun (declared, hint) =>
      Field.ofDeclared r.identity declared hint).foldl addField []

/-- The class after a class in its lineage. -/
def parent? (t : ClassTable) (c : ClassId) : Option ClassId :=
  ((t.lineage c)[1]?).filter (· < c)

theorem parent_lt {t : ClassTable} {c p : ClassId} (h : t.parent? c = some p) : p < c := by
  simpa using (Option.filter_eq_some_iff.1 h).2

/-- The parent of a class, the parent of that, and so on. -/
def ancestors (t : ClassTable) (c : ClassId) : List ClassId :=
  match h : t.parent? c with
  | none => []
  | some p =>
    have := parent_lt h
    p :: t.ancestors p
  termination_by c

/-- The field that a class inherits under a name from another one. -/
def heritable? (t : ClassTable) (name : String) (c : ClassId) : Option Field :=
  (Table.find? (t.ownFields c) name).filter (!·.isPrivate)

/-- The field that a name means in a class: one that it declares, or the one it inherits. -/
def findField? (t : ClassTable) (c : ClassId) (name : String) : Option Field :=
  let name := Field.publicName name
  match Table.find? (t.ownFields c) name with
  | some f => some f
  | none => (t.ancestors c).findSome? (t.heritable? name)

/-- All fields of a class, those that it declares first. -/
def fields (t : ClassTable) (c : ClassId) : List Field :=
  Table.values (((t.ancestors c).flatMap fun a =>
    (Table.values (t.ownFields a)).filter (!·.isPrivate)).foldl addField (t.ownFields c))

/-- The field that a class must have under a name. -/
def getField (t : ClassTable) (c : ClassId) (name : String) : Except AccessFault Field :=
  match t.findField? c name with
  | some f => .ok f
  | none => .error (.notField name (t.fullName c))

end Reflection.ClassTable
