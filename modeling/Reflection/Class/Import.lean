import Reflection.Class.Table

/-!
# Dotted names of classes

A dotted name leads through a module to a class. The longest start of the name that is a module is
taken, and what follows is a path of attributes in that module.
-/
namespace Reflection

/-- Why a dotted name leads to no class. -/
inductive ImportFault
  /-- The name of a module starts with a dot. -/
  | relative (dotted : String)
  | notImportable (dotted : String)
  deriving DecidableEq, Repr

/-- Wording of a fault. -/
def ImportFault.message? : ImportFault → Option String
  | relative _ => none
  | notImportable dotted => some (dotted ++ " is not an importable class name")

namespace ClassTable

/-- There is a module of a name. -/
def hasSpace (t : ClassTable) (space : String) : Bool :=
  t.classes.any (·.identity.space == space)

/-- The class that segments lead to, of which at most the first `count` name the module. -/
def importFrom (t : ClassTable) (dotted : String) (segments : List String) :
    Nat → Except ImportFault ClassId
  | 0 => .error (.notImportable dotted)
  | count + 1 =>
    let space := ".".intercalate (segments.take (count + 1))
    if space = "" then .error (.notImportable dotted)
    else if space.toList.head? = some '.' then .error (.relative dotted)
    else if t.hasSpace space then
      match t.member? space (segments.drop (count + 1)) with
      | some c => .ok c
      | none => .error (.notImportable dotted)
    else t.importFrom dotted segments count

/-- The class that a dotted name leads to. -/
def importClass (t : ClassTable) (dotted : String) : Except ImportFault ClassId :=
  let segments := (dotted.toList.splitOn '.').map String.ofList
  t.importFrom dotted segments (segments.length - 1)

end ClassTable
end Reflection
