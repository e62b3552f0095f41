import Reflection.Declaration.Index
import Reflection.Registry

/-!
# Resolution of names

A name in a file is absolute, the alias of an import, or the name of a declaration, as it stands or
inside one of the namespaces that are searched. A name that the file does not declare may also be
found among the registered types.
-/
namespace Reflection

/-- Where names are looked for: the namespaces to search, all of the file by default, and whether
the registered types count. -/
structure LookupOptions where
  namespaces : Option (List String) := none
  globalLookup : Bool := false

namespace Name

/-- The names that a relative name may stand for, in the order in which they are tried. -/
def candidates (index : DeclarationIndex) (options : LookupOptions) (name : String) :
    List String :=
  let namespaces := options.namespaces.getD (index.names .namespaceKind)
  name :: namespaces.map (join · name)

/-- The kinds that are tried, in order. -/
def requestedKinds (kinds : Option (List DeclarationKind)) : List DeclarationKind :=
  match kinds with
  | none => DeclarationKind.resolutionOrder
  | some wanted => DeclarationKind.resolutionOrder.filter (wanted.contains ·)

/-- Qualified name of the declaration that a name refers to, without separator at its start. -/
def qualify (index : DeclarationIndex) (registry : Option SymbolRegistry) (name : String)
    (kinds : Option (List DeclarationKind)) (options : LookupOptions) :
    Except SymbolFault String :=
  if isAbsolute name then .ok (String.ofList (name.toList.drop 1))
  else match Table.find? index.imports name with
    | some imported => .ok imported
    | none =>
      let tried := candidates index options name
      match tried.find? fun c => (requestedKinds kinds).any fun k => index.contains k c with
      | some found => .ok found
      | none =>
        let loaded := registry.filter fun _ => options.globalLookup
        match loaded.bind fun r => tried.find? fun c => (r.type? c).isSome with
        | some found => .ok found
        | none => .error (.notFound name none)

/-- Qualified name with a separator at its start. -/
def fullyQualify (index : DeclarationIndex) (registry : Option SymbolRegistry) (name : String)
    (kinds : Option (List DeclarationKind)) (options : LookupOptions) :
    Except SymbolFault String :=
  (qualify index registry name kinds options).map ("\\" ++ ·)

end Name
end Reflection
