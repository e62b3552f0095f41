import Reflection.Class.Linearization
import Reflection.Class.Method
import Reflection.Class.TypeHint
import Reflection.Field.Naming
import Reflection.Text.Identifier

/-!
# Classes

A class table holds the classes of a program in the order of their definition. A class has entries,
methods and values, and may fix the attributes of its objects by slots; its lineage is the class
itself followed by its ancestors. The root of all classes is left out everywhere.

## Main definitions

* `ClassDescription`, `ClassRecord`, `ClassTable`.
* `ClassTable.define`: the table with one more class.
* `ClassTable.lookup?`: what a name means for the objects of a class.
* `ClassTable.findMethod?`: the method that a name means.
-/
namespace Reflection

open Reflection.Text

/-- Position of a class in the order of definition. -/
abbrev ClassId := Nat

/-- A class by its position and its names: its own one, the module that holds it, and its path in
that module. -/
structure ClassIdentity where
  id : ClassId
  name : String
  space : String
  path : String
  deriving DecidableEq, Repr

/-- Name of a class with its module. -/
def ClassIdentity.fullName (c : ClassIdentity) : String := c.space ++ "." ++ c.path

/-- What a name means in a class: a value, a method, a slot of its objects, or another class. -/
inductive Entry
  | value (v : Value)
  | method (m : Method)
  | slot
  | nested (c : ClassId)

/-- What a class is defined by. Without slots its objects hold any attributes. -/
structure ClassDescription where
  name : String
  space : String
  path : String
  bases : List ClassId := []
  hints : Table String TypeHint := []
  slots : Option (List String) := none
  entries : Table String Entry := []

/-- A class: what it was defined by, its lineage, the class that fixed the layout of its objects
last, and whether these hold any attributes and can be referred to weakly. -/
structure ClassRecord where
  identity : ClassIdentity
  hints : Table String TypeHint
  slots : Option (List String)
  entries : Table String Entry
  lineage : List ClassId
  layout : Option ClassId
  isOpen : Bool
  isReferable : Bool

/-- Why a class cannot be defined. -/
inductive ClassFault
  /-- A base is given twice, or the orders of the ancestors contradict each other. -/
  | inconsistentBases
  /-- Two bases fix the layout of their objects differently. -/
  | layoutConflict
  /-- A slot has no proper name, or asks again for what the objects have. -/
  | unusableSlot (name : String)
  /-- A slot has the name of an entry of its class. -/
  | slotConflict (name : String)
  deriving DecidableEq, Repr

/-- The classes in order of definition, those that are attributes of modules, by module and name,
and those that are attributes of classes. -/
structure ClassTable where
  classes : List ClassRecord := []
  members : Table (String × String) ClassId := []
  nested : Table (ClassId × String) ClassId := []

/-- A method as a member of a class. -/
structure MethodHandle where
  owner : ClassIdentity
  name : String
  method : Method

/-- Slot that lets objects hold any attributes. -/
def openSlot : String := "__dict__"

/-- Slot that lets objects be referred to weakly. -/
def referenceSlot : String := "__weakref__"

/-- The slot holds an attribute. -/
def holdsAttribute (slot : String) : Bool := slot != openSlot && slot != referenceSlot

namespace ClassRecord

/-- Names of the slots that hold attributes, as declared. -/
def attributeSlots (r : ClassRecord) : List String := (r.slots.getD []).filter holdsAttribute

/-- Names under which objects hold the attributes of the slots. -/
def storedSlots (r : ClassRecord) : List String :=
  r.attributeSlots.map (Field.storedName r.identity.name)

end ClassRecord

namespace ClassTable

/-- The class at a position. -/
def record? (t : ClassTable) (c : ClassId) : Option ClassRecord := t.classes[c]?

/-- Name of a class with its module. -/
def fullName (t : ClassTable) (c : ClassId) : String :=
  ((t.record? c).map (·.identity.fullName)).getD ""

/-- A class and its ancestors. -/
def lineage (t : ClassTable) (c : ClassId) : List ClassId :=
  ((t.record? c).map ClassRecord.lineage).getD []

/-- What a name means in a class, ancestors left aside. -/
def entry? (t : ClassTable) (c : ClassId) (name : String) : Option Entry :=
  match Table.find? t.nested (c, name) with
  | some inner => some (.nested inner)
  | none => (t.record? c).bind fun r =>
    match Table.find? r.entries name with
    | some e => some e
    | none => if name ∈ r.storedSlots then some .slot else none

/-- What a name means for a class: the entry of the first class of the lineage that has one, with
that class. -/
def lookup? (t : ClassTable) (c : ClassId) (name : String) : Option (ClassId × Entry) :=
  (t.lineage c).findSome? fun owner => (t.entry? owner name).map (owner, ·)

/-! ## Methods -/

/-- Method that an entry is; null as the value of an entry counts as its absence. -/
def methodOf? (t : ClassTable) (name : String) (owner : ClassId) :
    Option Entry → Option (Option MethodHandle)
  | none | some (.value .null) => none
  | some (.method m) => some ((t.record? owner).map fun r => ⟨r.identity, name, m⟩)
  | some _ => some none

/-- The method that a name means for a class, unless the first class of the lineage that has an
entry of the name has something else there. -/
def findMethod? (t : ClassTable) (c : ClassId) (name : String) : Option MethodHandle :=
  ((t.lineage c).findSome? fun owner => t.methodOf? name owner (t.entry? owner name)).join

/-! ## Definition -/

/-- One class has another one among its ancestors, or is the same. The root, `none`, is an ancestor
of all. -/
def hasAncestor (t : ClassTable) : Option ClassId → Option ClassId → Bool
  | _, none => true
  | none, some _ => false
  | some c, some ancestor => (t.lineage c).contains ancestor

/-- Layout of the objects of a class. -/
def layout (t : ClassTable) (c : ClassId) : Option ClassId := (t.record? c).bind ClassRecord.layout

/-- The base that fixes the layout of the objects of a new class: the first one that has the most
special layout. -/
def layoutBase? (t : ClassTable) : Option ClassId → List ClassId →
    Except ClassFault (Option ClassId)
  | best, [] => .ok best
  | none, c :: rest => t.layoutBase? (some c) rest
  | some best, c :: rest =>
    if t.hasAncestor (t.layout best) (t.layout c) then t.layoutBase? (some best) rest
    else if t.hasAncestor (t.layout c) (t.layout best) then t.layoutBase? (some c) rest
    else .error .layoutConflict

/-- The first slot of a class that is no identifier or asks for what the objects have. -/
def unusableSlot? (isOpen isReferable : Bool) : List String → Option String
  | [] => none
  | slot :: rest =>
    if !isIdentifier slot || (slot == openSlot && isOpen) ||
        (slot == referenceSlot && isReferable) then some slot
    else unusableSlot? (isOpen || slot == openSlot) (isReferable || slot == referenceSlot) rest

/-- Lineage of a new class. -/
def lineageOf? (t : ClassTable) (c : ClassId) (bases : List ClassId) : Option (List ClassId) :=
  if bases.Nodup then
    (Linearization.merge? (bases.map t.lineage ++ [bases])).map (c :: ·)
  else none

/-- The record of a new class. -/
def recordOf (t : ClassTable) (d : ClassDescription) : Except ClassFault ClassRecord := do
  let id := t.classes.length
  let base ← t.layoutBase? none d.bases
  let baseRecord := base.bind t.record?
  let bases := d.bases.filterMap t.record?
  let slots := d.slots.getD []
  if let some slot := unusableSlot? (baseRecord.any (·.isOpen)) (baseRecord.any (·.isReferable))
      slots then
    throw (.unusableSlot slot)
  let stored := (slots.filter holdsAttribute).map (Field.storedName d.name)
  if let some slot := stored.find? (Table.contains d.entries) then
    throw (.slotConflict slot)
  match t.lineageOf? id d.bases with
  | none => throw .inconsistentBases
  | some lineage =>
    return {
      identity := ⟨id, d.name, d.space, d.path⟩
      hints := d.hints
      slots := d.slots
      entries := d.entries
      lineage
      layout := if stored.isEmpty then base.bind t.layout else some id
      isOpen := d.slots.isNone || slots.contains openSlot || bases.any (·.isOpen)
      isReferable := d.slots.isNone || slots.contains referenceSlot || bases.any (·.isReferable) }

/-- The class that is an attribute of another one. -/
def attribute? (t : ClassTable) (c : ClassId) (name : String) : Option ClassId :=
  match t.lookup? c name with
  | some (_, .nested inner) => some inner
  | _ => none

/-- The class that a path of names leads to in a module. -/
def member? (t : ClassTable) (space : String) : List String → Option ClassId
  | [] => none
  | name :: rest =>
    (Table.find? t.members (space, name)).bind fun c => rest.foldlM t.attribute? c

/-- The table with a class as an attribute of its module, or of the class that its path passes
last. -/
def publish (t : ClassTable) (c : ClassIdentity) : ClassTable :=
  let path := (c.path.toList.splitOn '.').map String.ofList
  match path.getLast?, t.member? c.space path.dropLast with
  | some name, some outer => { t with nested := Table.insert t.nested (outer, name) c.id }
  | some name, none =>
    if path.length = 1 then { t with members := Table.insert t.members (c.space, name) c.id } else t
  | none, _ => t

/-- The table with one more class, and the class. -/
def define (t : ClassTable) (d : ClassDescription) : Except ClassFault (ClassTable × ClassId) := do
  let record ← t.recordOf d
  let t := { t with classes := t.classes ++ [record] }
  return (t.publish record.identity, record.identity.id)

end ClassTable
end Reflection
