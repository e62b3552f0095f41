import Reflection.Instance

/-!
# Calling methods

A method acts on the object that it is called on, through the parameter for it. A static method has
no such parameter unless it declares one, which then stands for a value, and values have no
attributes.
-/
namespace Reflection

/-- The number after a number; switches count as zero and one. -/
def Value.next? : Value → Option Value
  | .bool b => some (.int (if b then 2 else 1))
  | .int n => some (.int (n + 1))
  | .float x => some (.float (x + 1))
  | _ => none

namespace MethodBody

/-- Gets an attribute of a receiver. -/
def getFrom (t : ClassTable) (receiver : Option Argument) (name : String) : Access Value := do
  match receiver with
  | some .object => Access.getAttribute t name
  | some .type =>
    match t.lookup? (← getThe Instance).type name with
    | some (_, .value v) => return v
    | _ => throw (.noAttribute name)
  | _ => throw (.noAttribute name)

/-- Sets an attribute of a receiver, which must be an object. -/
def setOn (t : ClassTable) (receiver : Option Argument) (name : String) (v : Value) :
    Access Unit := do
  match receiver with
  | some .object => Access.setAttribute t name v
  | _ => throw (.noAttribute name)

/-- Name of the parameter whose argument is stored. -/
def valueParameter : String := "value"

/-- Does what a body says, with arguments by name. -/
def run (t : ClassTable) (arguments : List (String × Argument)) : MethodBody → Access Value
  | const v => return v
  | fail => throw .raised
  | unknown => throw .wrongArguments
  | get name => getFrom t receiver name
  | count name => do
    match (← getFrom t receiver name).next? with
    | some v =>
      setOn t receiver name v
      return v
    | none => throw .notNumber
  | set name => do
    setOn t receiver name (← stored)
    return .null
  | wrap name => do
    setOn t receiver name (.list [← stored])
    return .null
where
  /-- The argument for the receiver. -/
  receiver : Option Argument :=
    (arguments.lookup Method.objectParameter).or (arguments.lookup Method.classParameter)
  /-- The argument to store. -/
  stored : Access Value :=
    match (arguments.lookup valueParameter).bind Argument.value? with
    | some v => return v
    | none => throw (.noAttribute valueParameter)

end MethodBody

/-- Calls a method on the object. -/
def MethodHandle.invoke (t : ClassTable) (m : MethodHandle) (values : List Value) : Access Value :=
  match Method.arguments? m.method.parameters
      (Method.receiver m.method.kind ++ values.map Argument.value) with
  | some arguments => m.method.body.run t arguments
  | none => throw .wrongArguments

end Reflection
