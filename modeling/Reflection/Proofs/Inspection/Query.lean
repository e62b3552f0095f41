import Reflection.SourceFile

/-!
# Queries to a source file

Everything that a source file can be asked for. Its index answers most queries; the constants of a
structure are read from the scope of the structure. An inspection keeps the index and the constants
that it computed for the queries that come later.

## Main definitions

* `IndexQuery`, `Query`: what a source file can be asked for.
* `Query.ask`: a query to an inspection.
* `SourceFile.answer`: the answer to a query when nothing was computed before.
-/
namespace Reflection

/-- What the index of a file can be asked for. -/
inductive IndexQuery
  | index
  | names (kind : DeclarationKind)
  | elements (kind : DeclarationKind)
  | structureNames
  | structures
  | has (kind : DeclarationKind) (name : String)
  | hasNamespace (name : String)
  | hasStructure (name : String)
  | structureKind (name : String)
  | declaration (kind : DeclarationKind) (name : String)
  | get (kind : DeclarationKind) (name : String)
  | getStructure (name : String)
  | qualify (name : String) (kinds : Option (List DeclarationKind)) (options : LookupOptions)
  | fullyQualify (name : String) (kinds : Option (List DeclarationKind)) (options : LookupOptions)

namespace IndexQuery

/-- What a query gives. -/
def Answer : IndexQuery → Type
  | index => DeclarationIndex
  | names _ | structureNames => List String
  | elements _ => List (String × Definition)
  | structures => Table String Definition
  | has _ _ | hasNamespace _ | hasStructure _ => Bool
  | structureKind _ => Option DeclarationKind
  | declaration _ _ => Declaration
  | get _ _ | getStructure _ => Definition
  | qualify _ _ _ | fullyQualify _ _ _ => String

/-- The answer to a query from the index of a file. -/
def answer (f : SourceFile) : (q : IndexQuery) → DeclarationIndex → Except SourceFault q.Answer
  | index, x => .ok x
  | names kind, x => .ok (x.names kind)
  | elements kind, x => .ok (x.elements kind)
  | structureNames, x => .ok (SourceFile.structureNames x)
  | structures, x => .ok (SourceFile.structures x)
  | has kind name, x => .ok (SourceFile.has kind name x)
  | hasNamespace name, x => .ok (SourceFile.hasNamespace name x)
  | hasStructure name, x => .ok (SourceFile.structureKind? name x).isSome
  | structureKind name, x => .ok (SourceFile.structureKind? name x)
  | declaration kind name, x => SourceFile.getDeclaration kind name x
  | get kind name, x => f.get kind name x
  | getStructure name, x => f.getStructure name x
  | qualify name kinds options, x => f.qualify name kinds options x
  | fullyQualify name kinds options, x => f.fullyQualify name kinds options x

end IndexQuery

/-- What a source file can be asked for. -/
inductive Query
  | ofIndex (q : IndexQuery)
  | structureConstants (name : String)
  | structureConstant (owner name : String)

namespace Query

/-- What a query gives. -/
def Answer : Query → Type
  | ofIndex q => q.Answer
  | structureConstants _ => Table String Constant
  | structureConstant _ _ => Constant

/-- A query to an inspection: the inspection after it, and the answer. -/
def ask (i : Inspection) : (q : Query) → Inspection × Report SourceFault q.Answer
  | ofIndex q => i.query (q.answer i.file)
  | structureConstants name => i.structureConstants name
  | structureConstant owner name => i.structureConstant owner name

end Query

namespace Inspection

/-- The inspection of a file that was asked for nothing yet. -/
def start (f : SourceFile) : Inspection := { file := f }

/-- The inspection after queries, one after the other. -/
def after (i : Inspection) (queries : List Query) : Inspection :=
  queries.foldl (fun i q => (q.ask i).1) i

end Inspection

namespace SourceFile

/-- The constants of the structure that a name refers to, read from the scope of its declaration. -/
def structureConstants (f : SourceFile) (name : String) :
    Except SourceFault (Table String Constant) := do
  let index ← f.buildIndex.outcome
  let d ← structureDeclaration name index
  (f.readStructure d.scope).outcome

/-- The answer to a query, all that it needs being computed for it. -/
def answer (f : SourceFile) : (q : Query) → Except SourceFault q.Answer
  | .ofIndex q => f.buildIndex.outcome >>= q.answer f
  | .structureConstants name => f.structureConstants name
  | .structureConstant owner name => do
    let constants ← f.structureConstants owner
    match Table.find? constants name with
    | some c => return c
    | none => .error (.symbol (.notFound (owner ++ "::" ++ name) none))

end SourceFile
end Reflection
