import Reflection.Declaration
import Reflection.Name
import Reflection.Path

/-!
# Registry of loaded symbols

A file is read without being run. Where its symbols are known to be loaded, the registry holds one
handle for each type and each function, by folded name, and the files that declare them.
-/
namespace Reflection

/-- Why a symbol of a file cannot be given. -/
inductive SymbolFault
  /-- A name is not declared; the kind is the one that was asked for. -/
  | notFound (name : String) (kind : Option DeclarationKind)
  /-- A symbol is not registered. -/
  | notLoaded (name : String)
  /-- A symbol is wanted where there is no registry. -/
  | noRegistry (name : String)
  deriving DecidableEq, Repr

namespace SymbolFault

/-- Wording of a fault. -/
def message : SymbolFault → String
  | notFound name _ => name ++ " not found"
  | notLoaded name => name ++ " is not loaded"
  | noRegistry name => name ++ " is not loaded"

/-- What a fault adds to its wording. -/
def details? : SymbolFault → Option String
  | notFound _ kind => kind.map fun k => s!"no {k.label} declaration"
  | notLoaded _ => none
  | noRegistry _ => some "no symbol registry"

end SymbolFault

/-- Loaded types and functions, and the files of both. -/
structure SymbolRegistry where
  types : Table String Handle := []
  functions : Table String Handle := []
  files : Table String String := []
  deriving Inhabited

namespace SymbolRegistry

/-- Files with the one of a symbol, if it is known. -/
def recordFile (files : Table String String) (name : String) (file : Option String) :
    Table String String :=
  match file with
  | some path => Table.insert files (Name.fold name) (Path.normal path)
  | none => files

/-- Registers a class, interface or trait. -/
def addType (r : SymbolRegistry) (name : String) (handle : Handle) (file : Option String) :
    SymbolRegistry :=
  { r with types := Table.insert r.types (Name.fold name) handle,
           files := recordFile r.files name file }

/-- Registers a function. -/
def addFunction (r : SymbolRegistry) (name : String) (handle : Handle) (file : Option String) :
    SymbolRegistry :=
  { r with functions := Table.insert r.functions (Name.fold name) handle,
           files := recordFile r.files name file }

/-- Handle of a type. -/
def type? (r : SymbolRegistry) (name : String) : Option Handle :=
  Table.find? r.types (Name.fold name)

/-- Handle of a function. -/
def function? (r : SymbolRegistry) (name : String) : Option Handle :=
  Table.find? r.functions (Name.fold name)

/-- A type is registered. -/
def hasType (r : SymbolRegistry) (name : String) : Bool := Table.contains r.types (Name.fold name)

/-- A function is registered. -/
def hasFunction (r : SymbolRegistry) (name : String) : Bool :=
  Table.contains r.functions (Name.fold name)

/-- Handle of a type that must be registered. -/
def getType (r : SymbolRegistry) (name : String) : Except SymbolFault Handle :=
  ((r.type? name).map Except.ok).getD (.error (.notLoaded name))

/-- Handle of a function that must be registered. -/
def getFunction (r : SymbolRegistry) (name : String) : Except SymbolFault Handle :=
  ((r.function? name).map Except.ok).getD (.error (.notLoaded name))

/-- File that declares a symbol. -/
def file? (r : SymbolRegistry) (name : String) : Option String :=
  Table.find? r.files (Name.fold name)

/-- Folded name of a handle, a type before a function, the first of several. -/
def nameOf? (r : SymbolRegistry) (handle : Handle) : Option String :=
  (List.find? (fun entry => entry.2 = handle) (r.types ++ r.functions)).map Prod.fst

end SymbolRegistry
end Reflection
