import Reflection.Constant.Parser
import Reflection.Declaration.Index
import Reflection.Declaration.Statement
import Reflection.Registry
import Reflection.Report
import Reflection.Scope.Traversal
import Reflection.Scope.Visitor

/-!
# Scanning a file for declarations

One traversal of a token stream finds everything that a file declares. Namespaces, functions and
structures are known by the scopes that they own, in the order in which these close. Imports and
constants are statements outside of functions and structures, in the order in which they stand. The
constants of a structure are read from its scope on request.

## Main definitions

* `ScanOptions`: what is evaluated, and what names stand for.
* `scan`: the index of a token stream.
* `scanStructureConstants`: the constants of the structure that owns a scope.
-/
namespace Reflection

open Token

/-- Why a token stream cannot be scanned. -/
inductive ScanFault
  | statement (fault : StatementFault)
  | evaluation (fault : EvaluationFault)
  | symbol (fault : SymbolFault)
  deriving DecidableEq, Repr

/-- How a token stream is scanned: whether constants are evaluated, with how many brackets open at
once, and what functions and structures stand for. -/
structure ScanOptions where
  evaluates : Bool := false
  room : Nat := 32
  define : DeclarationKind → String → Except SymbolFault Definition := fun _ name => .ok (.text name)

/-! ## Finding declarations -/

/-- Words that may stand between the documentation of a structure and its keyword. -/
def structureModifiers : List String := ["abstract", "final", "readonly"]

/-- Words that may stand between the documentation of a constant of a structure and its keyword. -/
def memberModifiers : List String :=
  ["public", "protected", "private", "final", "static", "abstract"]

/-- A statement that declares imports or constants, with the scope in which it stands. -/
structure Statement where
  token : Token
  scope : Scope
  deriving DecidableEq, Repr

/-- A scope in which statements belong to the file: none, the outermost one, or a namespace. -/
def isFileLevel (scope : Option Scope) : Bool :=
  scope.all fun s => s.level == 0 || s.ownerKind? == some .namespaceKeyword

/-- The scope as it is once it has closed. -/
def closedForm (closed : List Scope) (s : Scope) : Scope :=
  (closed.find? (·.first == s.first)).getD s

/-- A token is the keyword of an import or constant statement. The keyword `const` right after `use`
is part of an import. -/
def isStatementKeyword (tokens : List Token) (t : Token) : Bool :=
  t.kind == .useKeyword ||
    (t.kind == .constKeyword &&
      !(previousSignificant? (tokens.take t.index.toNat).reverse).any (·.kind == .useKeyword))

/-- The import and constant statements of a file, in order. -/
def statements (tokens : List Token) (events : List Event) : List Statement :=
  let closed := closedScopes events
  events.filterMap fun
    | .passed t scope =>
      if isStatementKeyword tokens t && isFileLevel scope then
        some ⟨t, (scope.map (closedForm closed)).getD {}⟩
      else none
    | _ => none

/-- Kind of the declaration that owns a scope. -/
def ownerDeclaration? (s : Scope) : Option DeclarationKind :=
  s.ownerKind?.bind DeclarationKind.ofOwner?

/-- The owners of the scopes that a kind of declaration owns, with these scopes. -/
def ownedScopes (closed : List Scope) (kind : DeclarationKind) : List (Token × Scope) :=
  closed.filterMap fun s =>
    if ownerDeclaration? s = some kind then s.owner.map (·, s) else none

/-- The tokens after a token of the stream. -/
def tokensAfter (tokens : List Token) (t : Token) : List Token := tokens.drop (t.index + 1).toNat

/-- The tokens before a token of the stream, the last one first. -/
def tokensBefore (tokens : List Token) (t : Token) : List Token :=
  (tokens.take t.index.toNat).reverse

/-- The name that follows a declaration keyword, an ampersand being passed over; empty if none
does. -/
def declaredName (tokens : List Token) (keyword : Token) : String :=
  match skipIgnorable (tokensAfter tokens keyword) with
  | t :: rest => (takeName (if t.isPunct "&" then skipIgnorable rest else t :: rest)).1
  | [] => ""

/-! ## Namespaces -/

/-- The namespaces of a file: the scopes that they own, with their names. -/
abbrev NamespaceScopes := List (Scope × String)

/-- The namespaces of a file. -/
def namespaceScopes (tokens : List Token) (closed : List Scope) : NamespaceScopes :=
  (ownedScopes closed .namespaceKind).map fun (keyword, s) => (s, declaredName tokens keyword)

/-- The inner one of two namespaces around a position, the former one where they are equally
deep. -/
def innermost (index : Int) (found : Option (Scope × String)) (entry : Scope × String) :
    Option (Scope × String) :=
  if entry.1.contains index && found.all (·.1.level < entry.1.level) then some entry else found

/-- Name of the innermost namespace around a position, empty outside of all. -/
def NamespaceScopes.nameAt (namespaces : NamespaceScopes) (index : Int) : String :=
  ((namespaces.foldl (innermost index) none).map Prod.snd).getD ""

/-! ## Constants -/

/-- Warning about a constant that has no value. -/
def keptAsText (name : Token) : String :=
  s!"Constant {name.text} at line {name.line} is kept as source text"

/-- Value of a constant: the value of its expression if that is wanted and supported, and otherwise
the text of the expression. -/
def constantValue (options : ScanOptions) (lookup : ConstantLookup) (d : Declarator) :
    Report ScanFault Value :=
  let kept : Value := .text (spelling d.expression)
  if options.evaluates then
    match evaluate lookup options.room d.expression with
    | .ok v => pure v
    | .error (.unsupported _ _) => ⟨.ok kept, [keptAsText d.name]⟩
    | .error fault => .fail (.evaluation fault)
  else pure kept

/-- The constant that a declarator declares. -/
def constantOf (options : ScanOptions) (lookup : ConstantLookup) (docComment : String)
    (d : Declarator) : Report ScanFault Constant := do
  let value ← constantValue options lookup d
  return ⟨d.name.text, value, docComment, spelling d.expression⟩

/-- Line of the last token of a stream. -/
def lastLine (tokens : List Token) : Int := (tokens.getLast?.map Token.line).getD (-1)

/-- Adds the clauses of a statement one after the other, then reports its fault, if it has one. -/
def addClauses {σ α : Type} (add : σ → α → Report ScanFault σ) (s : σ) (clauses : Clauses α) :
    Report ScanFault σ := do
  let s ← clauses.items.foldlM add s
  match clauses.fault with
  | some fault => .fail (.statement fault)
  | none => pure s

/-! ## Filing declarations -/

/-- Adds a declaration to an index. -/
def file (index : DeclarationIndex) (d : Declaration) (definition : Definition) :
    Report ScanFault DeclarationIndex :=
  let (index, warnings) := index.add d definition
  ⟨.ok index, warnings⟩

/-- Files the namespaces that have a name. -/
def fileNamespaces (tokens : List Token) (closed : List Scope) (index : DeclarationIndex) :
    Report ScanFault DeclarationIndex :=
  (ownedScopes closed .namespaceKind).foldlM (fun index (keyword, s) =>
    let name := declaredName tokens keyword
    if name = "" then pure index
    else file index ⟨.namespaceKind, name, s, keyword, ""⟩ (.text name)) index

/-- Files the imports of a statement. -/
def fileUse (tokens : List Token) (index : DeclarationIndex) (s : Statement) :
    Report ScanFault DeclarationIndex :=
  addClauses (fun index clause =>
      file index ⟨.useKind, clause.name, s.scope, s.token, ""⟩ (.text clause.localName))
    index (readUse s.token.line (tokensAfter tokens s.token))

/-- Values of the constants that an index holds, as they are seen in a namespace: a name refers to
that namespace first and then to the global one. -/
def constantsIn (space : String) (index : DeclarationIndex) : ConstantLookup := fun name =>
  let name := Name.relative name
  ([Name.join space name, name].findSome? index.constant?).map Constant.value

/-- Files the constants of a statement. -/
def fileConst (options : ScanOptions) (tokens : List Token) (namespaces : NamespaceScopes)
    (index : DeclarationIndex) (s : Statement) : Report ScanFault DeclarationIndex :=
  let space := namespaces.nameAt s.token.index
  let docComment := docCommentBefore [] (tokensBefore tokens s.token)
  addClauses (fun index d => do
      let c ← constantOf options (constantsIn space index) docComment d
      file index ⟨.constKind, Name.join space c.name, s.scope, s.token, docComment⟩ (.constant c))
    index (readConst s.token.line (lastLine tokens) (tokensAfter tokens s.token))

/-- Files the imports or the constants of a statement. -/
def fileStatement (options : ScanOptions) (tokens : List Token) (namespaces : NamespaceScopes)
    (index : DeclarationIndex) (s : Statement) : Report ScanFault DeclarationIndex :=
  if s.token.kind = .useKeyword then fileUse tokens index s
  else fileConst options tokens namespaces index s

/-- Keywords of structures own the scopes in which a function is a method. -/
def ownsMethods : TokenKind → Bool
  | .classKeyword | .traitKeyword | .interfaceKeyword => true
  | _ => false

/-- Files the declarations of a kind that own a scope and have a name, methods left out. -/
def fileScoped (options : ScanOptions) (tokens : List Token) (closed : List Scope)
    (namespaces : NamespaceScopes) (index : DeclarationIndex) (kind : DeclarationKind) :
    Report ScanFault DeclarationIndex :=
  (ownedScopes closed kind).foldlM (fun index (keyword, s) =>
    let name := declaredName tokens keyword
    if name = "" ∨ (kind = .functionKind ∧ s.parentKind?.any ownsMethods) then pure index
    else do
      let name := Name.join (namespaces.nameAt keyword.index) name
      let modifiers := if kind = .functionKind then [] else structureModifiers
      let docComment := docCommentBefore modifiers (tokensBefore tokens keyword)
      let definition ← Report.ofExcept ((options.define kind name).mapError ScanFault.symbol)
      file index ⟨kind, name, s, keyword, docComment⟩ definition) index

/-- The kinds of declarations that own a scope, in the order in which they are filed after the
statements. -/
def scopedKinds : List DeclarationKind := [.functionKind, .interfaceKind, .traitKind, .classKind]

/-- The index of a numbered token stream. -/
def scan (options : ScanOptions) (tokens : List Token) : Report ScanFault DeclarationIndex := do
  let events := Traversal.events tokens
  let closed := closedScopes events
  let namespaces := namespaceScopes tokens closed
  Report.warn (events.filterMap Event.warning?)
  let index ← fileNamespaces tokens closed {}
  let index ← (statements tokens events).foldlM (fileStatement options tokens namespaces) index
  scopedKinds.foldlM (fileScoped options tokens closed namespaces) index

/-! ## Constants of structures -/

/-- Values of the constants of a structure, which refer to each other as members of the structure
itself. -/
def constantsOfSelf (constants : Table String Constant) : ConstantLookup := fun name =>
  match ["self::", "static::"].findSome? fun owner =>
      if owner.toList.isPrefixOf name.toList then some (name.toList.drop owner.length) else none with
  | some member => (Table.find? constants (String.ofList member)).map Constant.value
  | none => none

/-- Reads the constants of a structure at one event of the traversal of its scope: a statement of
the outermost scope is read, a closing brace without partner is warned of. -/
def structureStep (options : ScanOptions) (tokens : List Token)
    (constants : Table String Constant) (event : Event) :
    Report ScanFault (Table String Constant) :=
  match event with
  | .passed t scope =>
    if t.kind = .constKeyword ∧ scope.any (·.level == 0) then
      let docComment := docCommentBefore memberModifiers (tokensBefore tokens t)
      addClauses (fun constants d => do
          let c ← constantOf options (constantsOfSelf constants) docComment d
          return Table.insert constants c.name c)
        constants (readConst t.line (lastLine tokens) (tokensAfter tokens t))
    else pure constants
  | event => ⟨.ok constants, event.warning?.toList⟩

/-- The constants that stand directly in the scope of a structure, by name. -/
def scanStructureConstants (options : ScanOptions) (tokens : List Token) (s : Scope) :
    Report ScanFault (Table String Constant) :=
  match s.last with
  | some last =>
    if s.first < 0 ∨ last < s.first then pure []
    else
      let range : TokenRange :=
        ⟨TokenRange.clamp tokens.length s.first, TokenRange.clamp tokens.length last⟩
      (Traversal.events (range.slice tokens)).foldlM (structureStep options tokens) []
  | none => pure []

end Reflection
