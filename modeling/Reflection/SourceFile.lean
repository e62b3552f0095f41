import Reflection.Declaration.Scan
import Reflection.Name.Resolution
import Reflection.Settings
import Reflection.Text.Encoding
import Reflection.Text.Line

/-!
# Source files

A source file is read, cut into tokens and indexed when a query first needs it; every query is then
answered from the index. A file whose symbols are loaded gives their handles, and building its index
fails if one of them is not registered.

## Main definitions

* `FileFlags`, `FileSystem`, `SourceFile`.
* `Inspection`: a source file with what was computed so far.
* `Inspection.query`: a query, answered from the index.
-/
namespace Reflection

open Reflection.Text

/-- How a file is inspected, as bits. -/
structure FileFlags where
  bits : Nat
  deriving DecidableEq, Repr

namespace FileFlags

/-- No flag. -/
def none : FileFlags := ⟨0⟩

/-- Constants are evaluated. -/
def safe : FileFlags := ⟨1⟩

/-- The symbols of the file are known to the registry. -/
def loaded : FileFlags := ⟨4⟩

/-- Flags of an integer, a negative one being taken modulo the least power of two, at least eight,
that makes it positive. -/
def ofInt (n : Int) : FileFlags :=
  if 0 ≤ n then ⟨n.toNat⟩
  else if -8 ≤ n then ⟨(8 + n).toNat⟩
  else ⟨(Nat.pow 2 (n.natAbs.log2 + 1) + n).toNat⟩

/-- Both sets of flags. -/
def union (a b : FileFlags) : FileFlags := ⟨a.bits ||| b.bits⟩

/-- Constants are evaluated. -/
def isSafe (f : FileFlags) : Bool := f.bits.testBit 0

/-- Symbols are looked up in the registry when they are asked for. -/
def isAutoloadable (f : FileFlags) : Bool := f.bits.testBit 1

/-- Symbols are looked up in the registry when the index is built. -/
def isLoaded (f : FileFlags) : Bool := f.bits.testBit 2

/-- The flags that are given as an integer. Without any, constants are evaluated where the settings
say so. -/
def given (settings : Settings) : Option Int → FileFlags
  | some n => ofInt n
  | .none => if settings.evaluatesConstants then safe else none

end FileFlags

/-! ## Files -/

/-- Entries of a file system: files with their octets, and directories. -/
inductive FileEntry
  | file (content : List UInt8)
  | directory
  deriving DecidableEq, Repr

/-- Entries by path, relative to one directory. -/
abbrev FileSystem := List (String × FileEntry)

namespace FileSystem

/-- The directory itself, an entry that is a directory, or one that holds an entry. -/
def isDirectory (files : FileSystem) (place : List String) : Bool :=
  place.isEmpty || files.any fun (path, entry) =>
    let components := Path.components path
    (components == place && entry == .directory) ||
      (place.isPrefixOf components && place.length < components.length)

/-- Place that is reached from a place by going along components; every place passed on the way must
be a directory. -/
def walk? (files : FileSystem) (place : List String) : List String → Option (List String)
  | [] => some place
  | c :: rest =>
    if files.isDirectory place then
      if c = ".." then
        if place.isEmpty then none else walk? files place.dropLast rest
      else walk? files (place ++ [c]) rest
    else none

/-- The file at a path, with its own path. -/
def file? (files : FileSystem) (path : String) : Option (String × List UInt8) :=
  if Path.root path != "" then none
  else do
    let place ← walk? files [] (Path.components path)
    let entry ← files.find? fun (p, _) => Path.components p == place
    match entry.2 with
    | .file content => some ("/".intercalate place, content)
    | .directory => none

/-- Octets in the longest name of an entry. -/
def maxName : Nat := 255

/-- Octets in the longest path. -/
def maxPath : Nat := 4095

/-- Whether a path is too long for a look at its place: as a whole, or in a name within a directory
that is there. A path with the character NUL is not looked for. -/
def refuses (files : FileSystem) (path : String) : Bool :=
  let names := Path.components path
  let before := names.takeWhile (·.utf8ByteSize ≤ maxName)
  !path.toList.contains '\x00' &&
    (maxPath < (Path.normal path).utf8ByteSize ||
      (before.length < names.length && (Path.root path == "" || before.isEmpty) &&
        (files.walk? [] before).any files.isDirectory))

end FileSystem

/-- Why a source file cannot be opened, read or queried. -/
inductive SourceFault
  /-- A path is no text. -/
  | notPath (found : String)
  /-- There is no file at a path. -/
  | noFile (path : String)
  /-- A path is too long. -/
  | tooLong (path : String)
  /-- A handle, as quoted, has no source file. -/
  | noSource (handle : String)
  /-- An encoding is not known. -/
  | unknownEncoding (name : String)
  /-- The octets of a file do not encode a text. -/
  | undecodable
  | scan (fault : ScanFault)
  | symbol (fault : SymbolFault)
  deriving DecidableEq, Repr

/-- Wording of the faults of opening a file. -/
def SourceFault.message? : SourceFault → Option String
  | notPath _ => some "File path or class handle expected"
  | noFile path => some (path ++ ": File not found")
  | noSource handle => some ("Failed to get source file name of " ++ handle)
  | _ => none

/-- What the faults of opening a file add to their wording. -/
def SourceFault.details? : SourceFault → Option String
  | notPath found => some ("got " ++ found)
  | noSource _ => some "handle is not registered with a source file"
  | _ => none

/-- A source file: its path, its octets in UTF-8, how these are cut into tokens, and how it is
inspected. -/
structure SourceFile where
  path : Option String
  content : Except SourceFault (List UInt8)
  tokenize : List UInt8 → List Token
  flags : FileFlags
  registry : Option SymbolRegistry
  room : Nat

namespace SourceFile

/-- The text of a file in an encoding, its line ends made line feeds, in UTF-8. -/
def decodeContent (encoding : String) (octets : List UInt8) :
    Except SourceFault (List UInt8) :=
  match Encoding.ofName? encoding with
  | none => .error (.unknownEncoding encoding)
  | some e =>
    match e.decode? octets with
    | none => .error .undecodable
    | some cs => .ok (encodeUtf8 (String.ofList (unifyNewlines cs)))

/-- A source text that is no file. -/
def ofSource (settings : Settings) (content : List UInt8) (tokenize : List UInt8 → List Token)
    (flags : FileFlags) (registry : Option SymbolRegistry) : SourceFile :=
  ⟨none, .ok content, tokenize, flags, registry, settings.maxNesting⟩

/-- The source file at a path. -/
def ofPath (settings : Settings) (files : FileSystem) (path : String)
    (tokenize : List UInt8 → List Token) (flags : FileFlags)
    (registry : Option SymbolRegistry) : Except SourceFault SourceFile :=
  if files.refuses path then .error (.tooLong path)
  else match files.file? path with
  | none => .error (.noFile (Path.normal path))
  | some (place, octets) =>
    .ok ⟨some place, decodeContent settings.encoding octets, tokenize, flags, registry,
      settings.maxNesting⟩

/-- A handle as messages quote it. -/
def quotedHandle : Handle → String
  | .object label => s!"<{label}>"
  | .text s => quoted s

/-- The source file that declares the symbol of a handle. Its symbols are loaded. -/
def ofHandle (settings : Settings) (files : FileSystem) (handle : Handle)
    (tokenize : List UInt8 → List Token) (flags : FileFlags) (registry : SymbolRegistry) :
    Except SourceFault SourceFile :=
  match (registry.nameOf? handle).bind registry.file? with
  | none => .error (.noSource (quotedHandle handle))
  | some path =>
    ofPath settings files path tokenize (flags.union .loaded) (some registry)

/-- The tokens of the file. -/
def tokens (f : SourceFile) : Except SourceFault (List Token) := f.content.map f.tokenize

/-- The handle of a function or structure of the file. -/
def bind (f : SourceFile) (kind : DeclarationKind) (name : String) :
    Except SymbolFault Definition :=
  match f.registry with
  | none => .error (.noRegistry name)
  | some r =>
    (if kind = .functionKind then r.getFunction name else r.getType name).map Definition.ofHandle

/-- How the file is scanned. -/
def scanOptions (f : SourceFile) : ScanOptions :=
  { evaluates := f.flags.isSafe, room := f.room,
    define := if f.flags.isLoaded then f.bind else fun _ name => .ok (.text name) }

/-- Builds the index of the file. -/
def buildIndex (f : SourceFile) : Report SourceFault DeclarationIndex := do
  let tokens ← Report.ofExcept f.tokens
  (scan f.scanOptions tokens).mapError .scan

/-- Reads the constants of the structure that owns a scope. -/
def readStructure (f : SourceFile) (s : Scope) : Report SourceFault (Table String Constant) := do
  let tokens ← Report.ofExcept f.tokens
  (scanStructureConstants f.scanOptions tokens s).mapError .scan

/-! ## Answers from the index -/

/-- Key of a name under a kind: the name itself, or the imported name of which it is the alias. -/
def find? (index : DeclarationIndex) (kind : DeclarationKind) (name : String) : Option String :=
  match index.lookup? kind (Name.relative name) with
  | some key => some key
  | none => (Table.find? index.imports name).bind (index.lookup? kind)

/-- Key of a name under a kind in which it must be declared. -/
def getKey (index : DeclarationIndex) (kind : DeclarationKind) (name : String) :
    Except SourceFault String :=
  match find? index kind name with
  | some key => .ok key
  | none => .error (.symbol (.notFound name (some kind)))

/-- What a name stands for under a kind. Names of symbols give way to handles where the file is
loaded or its symbols are looked up on demand. -/
def get (f : SourceFile) (kind : DeclarationKind) (name : String) (index : DeclarationIndex) :
    Except SourceFault Definition := do
  let key ← getKey index kind name
  match index.value? kind key with
  | none => .error (.symbol (.notFound name (some kind)))
  | some (.text s) =>
    if kind ≠ .constKind ∧ (f.flags.isLoaded ∨ f.flags.isAutoloadable) then
      (f.bind kind key).mapError .symbol
    else .ok (.text s)
  | some definition => .ok definition

/-- Declaration of a name under a kind. -/
def getDeclaration (kind : DeclarationKind) (name : String) (index : DeclarationIndex) :
    Except SourceFault Declaration := do
  let key ← getKey index kind name
  match index.declaration? kind key with
  | none => .error (.symbol (.notFound name (some kind)))
  | some d => .ok d

/-- The file declares a name under a kind. -/
def has (kind : DeclarationKind) (name : String) (index : DeclarationIndex) : Bool :=
  (find? index kind name).isSome

/-- The file declares a namespace. -/
def hasNamespace (name : String) (index : DeclarationIndex) : Bool :=
  (index.names .namespaceKind).contains (Name.relative name)

/-- Kind of the structure that a name refers to. -/
def structureKind? (name : String) (index : DeclarationIndex) : Option DeclarationKind :=
  DeclarationKind.structures.find? fun kind => has kind name index

/-- Kind of the structure that a name must refer to. -/
def getStructureKind (name : String) (index : DeclarationIndex) :
    Except SourceFault DeclarationKind :=
  match structureKind? name index with
  | some kind => .ok kind
  | none => .error (.symbol (.notFound name none))

/-- The structures by name: interfaces, traits, classes. -/
def structures (index : DeclarationIndex) : Table String Definition :=
  Table.ofEntries (DeclarationKind.structures.flatMap index.elements)

/-- Names of interfaces, then of traits, then of classes. -/
def structureNames (index : DeclarationIndex) : List String :=
  DeclarationKind.structures.flatMap index.names

/-- What the name of a structure stands for. -/
def getStructure (f : SourceFile) (name : String) (index : DeclarationIndex) :
    Except SourceFault Definition := do
  f.get (← getStructureKind name index) name index

/-- Declaration of a structure. -/
def structureDeclaration (name : String) (index : DeclarationIndex) :
    Except SourceFault Declaration := do
  getDeclaration (← getStructureKind name index) name index

/-- Qualified name that a name refers to. -/
def qualify (f : SourceFile) (name : String) (kinds : Option (List DeclarationKind))
    (options : LookupOptions) (index : DeclarationIndex) : Except SourceFault String :=
  (Name.qualify index f.registry name kinds options).mapError .symbol

/-- Qualified name with a separator at its start. -/
def fullyQualify (f : SourceFile) (name : String) (kinds : Option (List DeclarationKind))
    (options : LookupOptions) (index : DeclarationIndex) : Except SourceFault String :=
  (Name.fullyQualify index f.registry name kinds options).mapError .symbol

end SourceFile

/-! ## Inspections -/

/-- A source file with its index and the constants of its structures, as far as these were
needed. -/
structure Inspection where
  file : SourceFile
  index : Option DeclarationIndex := none
  structures : Table String (Table String Constant) := []

namespace Inspection

/-- The inspection with its index, which is built unless it is there. -/
def indexed (i : Inspection) : Inspection × Report SourceFault DeclarationIndex :=
  match i.index with
  | some index => (i, pure index)
  | none =>
    let report := i.file.buildIndex
    ({ i with index := report.outcome.toOption }, report)

/-- Answers a query from the index. -/
def query {α : Type} (i : Inspection) (answer : DeclarationIndex → Except SourceFault α) :
    Inspection × Report SourceFault α :=
  let (i, report) := i.indexed
  (i, report >>= fun index => .ofExcept (answer index))

/-- The constants of the structure with a declaration, which are read unless they are there. -/
def readOnce (i : Inspection) (d : Declaration) :
    Inspection × Report SourceFault (Table String Constant) :=
  match Table.find? i.structures d.name with
  | some constants => (i, pure constants)
  | none =>
    let report := i.file.readStructure d.scope
    match report.outcome with
    | .ok constants => ({ i with structures := Table.insert i.structures d.name constants }, report)
    | .error _ => (i, report)

/-- The constants of a structure. -/
def structureConstants (i : Inspection) (name : String) :
    Inspection × Report SourceFault (Table String Constant) :=
  let (i, report) := i.query (SourceFile.structureDeclaration name)
  match report.outcome with
  | .error fault => (i, ⟨.error fault, report.warnings⟩)
  | .ok d =>
    let (i, constants) := i.readOnce d
    (i, report >>= fun _ => constants)

/-- A constant of a structure. -/
def structureConstant (i : Inspection) (owner name : String) :
    Inspection × Report SourceFault Constant :=
  let (i, report) := i.structureConstants owner
  (i, report >>= fun constants =>
    match Table.find? constants name with
    | some c => pure c
    | none => .fail (.symbol (.notFound (owner ++ "::" ++ name) none)))

end Inspection
end Reflection
