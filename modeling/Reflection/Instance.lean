import Reflection.Class.Table

/-!
# Objects

An object holds attributes: those of the slots of its class and its ancestors, and any others if its
class is open. A slot comes before an attribute of its name, an attribute before what its name means
for the class.

## Main definitions

* `Instance`, `Instance.get?`, `Instance.set?`.
* `Access`: computations on an object. What such a computation did before it failed remains.
-/
namespace Reflection

/-- An object: its class, and its attributes outside of slots and in the slots of a class. -/
structure Instance where
  type : ClassId
  attributes : Table String Value := []
  slots : Table (ClassId × String) Value := []

/-- Why an attribute, a method or a field cannot be used. -/
inductive AccessFault
  | noAttribute (name : String)
  | wrongArguments
  | notNumber
  /-- The method itself failed. -/
  | raised
  | notReadable (owner field : String)
  | notWritable (owner field : String)
  | notField (name owner : String)
  deriving DecidableEq, Repr

/-- Wording of the faults about fields. -/
def AccessFault.message? : AccessFault → Option String
  | notReadable owner field => some s!"{owner}.{field} is not readable"
  | notWritable owner field => some s!"{owner}.{field} is not writable"
  | notField name owner => some s!"{name} is not a field of {owner}"
  | _ => none

namespace ClassTable

/-- The objects of a class hold any attributes. -/
def isOpen (t : ClassTable) (c : ClassId) : Bool := (t.record? c).any ClassRecord.isOpen

end ClassTable

namespace Instance

/-- Value of an attribute of an object. -/
def get? (t : ClassTable) (o : Instance) (name : String) : Option Value :=
  match t.lookup? o.type name with
  | some (owner, .slot) => Table.find? o.slots (owner, name)
  | found =>
    match Table.find? o.attributes name, found with
    | some v, _ => some v
    | none, some (_, .value v) => some v
    | none, _ => none

/-- The object with a value for an attribute, if it can hold that. -/
def set? (t : ClassTable) (o : Instance) (name : String) (v : Value) : Option Instance :=
  match t.lookup? o.type name with
  | some (owner, .slot) => some { o with slots := Table.insert o.slots (owner, name) v }
  | _ =>
    if t.isOpen o.type then some { o with attributes := Table.insert o.attributes name v } else none

/-- The attributes that an object itself holds, by name. -/
def held (t : ClassTable) (o : Instance) : List (String × Value) :=
  let inSlots := (t.lineage o.type).flatMap fun c =>
    o.slots.filterMap fun (key, v) => if key.1 = c then some (key.2, v) else none
  (Table.ofEntries (inSlots.reverse ++ o.attributes)).mergeSort fun a b => a.1 < b.1 || a.1 == b.1

end Instance

/-! ## Computations on an object -/

/-- Computations on an object that may fail. -/
abbrev Access := ExceptT AccessFault (StateM Instance)

namespace Access

/-- Gets an attribute of the object. -/
def getAttribute (t : ClassTable) (name : String) : Access Value := do
  match (← get).get? t name with
  | some v => return v
  | none => throw (.noAttribute name)

/-- Sets an attribute of the object. -/
def setAttribute (t : ClassTable) (name : String) (v : Value) : Access Unit := do
  match (← get).set? t name v with
  | some o => set o
  | none => throw (.noAttribute name)

end Access

/-- A new object with attributes that are set one after the other. -/
def Instance.create (t : ClassTable) (c : ClassId) (attributes : List (String × Value)) :
    Except AccessFault Instance :=
  let (outcome, o) := (attributes.forM fun (name, v) => Access.setAttribute t name v : Access Unit)
    |>.run.run { type := c }
  outcome.map fun _ => o

end Reflection
