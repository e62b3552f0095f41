import Reflection.Declaration.Scan

/-!
# Structured programs

A structured program is an open tag, items outside of namespaces, and sections. A section is a
namespace statement with the items after it, in braces or up to the next section. An item declares a
function or a structure with its block, imports, or constants. White space and comments may stand
between any two tokens except inside of qualified names, and what stands in a block is of no interest
as long as its braces match.

What a program declares is read off its structure, in the order in which a scan files it.

## Main definitions

* `Program`, `Section`, `Block`, `Item`: structured programs, with their `tokens`.
* `Program.declarations`: what a program declares.
* `fileAll`: the index of a list of declarations.
-/
namespace Reflection

open Reflection.Text Token

/-! ## Classes of tokens -/

/-- Keywords that begin a declaration. -/
def TokenKind.isDeclaration : TokenKind → Bool
  | namespaceKeyword | useKeyword | constKeyword | functionKeyword | interfaceKeyword | traitKeyword
  | classKeyword => true
  | _ => false

/-- Keywords that begin a namespace or a structure. -/
def TokenKind.isStructural : TokenKind → Bool
  | namespaceKeyword | interfaceKeyword | traitKeyword | classKeyword => true
  | _ => false

namespace Token

/-- A token that neither begins a declaration nor bounds a block or a statement. -/
def isPlain (t : Token) : Bool :=
  !t.kind.isDeclaration && !t.isPunct "\x7b" && !t.isPunct "\x7d" && !t.isPunct ";"

/-- An identifier that may begin a qualified name. -/
def isNameStart (t : Token) : Bool := t.kind == .identifier && isLabel t.text

/-- A token that extends a qualified name before it. -/
def extendsName (t : Token) : Bool := t.kind == .separator || t.isNameStart

/-- The separator between the segments of a qualified name. -/
def isNameSeparator (t : Token) : Bool := t.kind == .separator && t.text == "\\"

end Token

/-- Tokens in which every brace has its partner and no namespace or structure begins. -/
inductive Balanced : List Token → Prop
  | nil : Balanced []
  | other {t : Token} {rest : List Token} (hkind : t.kind.isStructural = false)
      (hopening : t.isPunct "\x7b" = false) (hclosing : t.isPunct "\x7d" = false)
      (hrest : Balanced rest) : Balanced (t :: rest)
  | block {opening closing : Token} {inner rest : List Token}
      (hopening : opening.isPunct "\x7b" = true) (hinner : Balanced inner)
      (hclosing : closing.isPunct "\x7d" = true) (hrest : Balanced rest) :
      Balanced (opening :: inner ++ closing :: rest)

/-- Tokens in which every round and square bracket has its partner, without a comma outside of
brackets if they are `outermost`. -/
inductive Bracketed : Bool → List Token → Prop
  | nil (outermost : Bool) : Bracketed outermost []
  | other {outermost : Bool} {t : Token} {rest : List Token}
      (hbracket : ∀ text ∈ ["(", ")", "[", "]"], t.isPunct text = false)
      (hcomma : outermost = true → t.isPunct "," = false) (hrest : Bracketed outermost rest) :
      Bracketed outermost (t :: rest)
  | group {outermost : Bool} {opening closing : Token} {inner rest : List Token}
      (hpair : opening.isPunct "(" = true ∧ closing.isPunct ")" = true ∨
        opening.isPunct "[" = true ∧ closing.isPunct "]" = true)
      (hinner : Bracketed false inner) (hrest : Bracketed outermost rest) :
      Bracketed outermost (opening :: inner ++ closing :: rest)

/-! ## Names -/

/-- White space and comments. -/
structure Gap where
  tokens : List Token
  ignorable : ∀ t ∈ tokens, t.isIgnorable = true

theorem Gap.ignorable_nil : ∀ t ∈ ([] : List Token), t.isIgnorable = true := List.forall_mem_nil _

/-- The documentation comments of a gap, as one text. -/
def Gap.docComment (g : Gap) : String := spelling (g.tokens.filter (·.kind == .docComment))

/-- A qualified name: its first segment, and the other ones each with the separator before it. -/
structure QualifiedName where
  head : Token
  head_isNameStart : head.isNameStart = true
  tail : List (Token × Token)
  tail_isName : ∀ segment ∈ tail,
    segment.1.isNameSeparator = true ∧ segment.2.isIdentifier = true

namespace QualifiedName

theorem tail_nil : ∀ segment ∈ ([] : List (Token × Token)),
    segment.1.isNameSeparator = true ∧ segment.2.isIdentifier = true := List.forall_mem_nil _

/-- The tokens of a qualified name. -/
def tokens (n : QualifiedName) : List Token :=
  n.head :: n.tail.flatMap fun segment => [segment.1, segment.2]

/-- A qualified name as written. -/
def text (n : QualifiedName) : String := spelling n.tokens

/-- The last segment of a qualified name. -/
def last (n : QualifiedName) : Token := (n.tail.getLast?.map Prod.snd).getD n.head

end QualifiedName

/-! ## Items -/

/-- A function or a structure: its keyword, its name, a header, and its block. -/
structure BracedItem where
  kind : DeclarationKind
  keyword : Token
  ofOwner?_keyword : DeclarationKind.ofOwner? keyword.kind = some kind
  kind_ne : kind ≠ .namespaceKind
  gap : Gap
  ampersand : Option (Token × Gap)
  ampersand_isPunct : ∀ mark ∈ ampersand, mark.1.isPunct "&" = true
  name : Token
  name_isNameStart : name.isNameStart = true
  header : List Token
  header_isPlain : ∀ t ∈ header, t.isPlain = true
  header_extendsName : ∀ t ∈ header.head?, t.extendsName = false
  opening : Token
  opening_isPunct : opening.isPunct "\x7b" = true
  body : List Token
  body_balanced : Balanced body
  closing : Token
  closing_isPunct : closing.isPunct "\x7d" = true

namespace BracedItem

/-- The tokens between the keyword of an item and its name. -/
def beforeName (b : BracedItem) : List Token :=
  b.gap.tokens ++ (b.ampersand.map fun mark => mark.1 :: mark.2.tokens).getD []

/-- The tokens of an item. -/
def tokens (b : BracedItem) : List Token :=
  b.keyword :: b.beforeName ++ b.name :: b.header ++ b.opening :: b.body ++ [b.closing]

end BracedItem

/-- One import of a statement: a name, perhaps after separators, and perhaps an alias after `as`. -/
structure ImportClause where
  before : Gap
  lead : List Token
  lead_isNameSeparator : ∀ t ∈ lead, t.isNameSeparator = true
  name : QualifiedName
  after : Gap
  renamed : Option (Token × Gap × Token × Gap)
  renamed_isAlias : ∀ part ∈ renamed, part.1.kind = .asKeyword ∧ part.2.2.1.isIdentifier = true

namespace ImportClause

theorem lead_nil : ∀ t ∈ ([] : List Token), t.isNameSeparator = true := List.forall_mem_nil _

theorem renamed_none : ∀ part ∈ (none : Option (Token × Gap × Token × Gap)),
    part.1.kind = .asKeyword ∧ part.2.2.1.isIdentifier = true := by simp

/-- The tokens of an import. -/
def tokens (c : ImportClause) : List Token :=
  c.before.tokens ++ c.lead ++ c.name.tokens ++ c.after.tokens ++
    (c.renamed.map fun part => part.1 :: part.2.1.tokens ++ part.2.2.1 :: part.2.2.2.tokens).getD []

/-- What an import declares: without an alias a name is known by its last segment. -/
def clause (c : ImportClause) : UseClause :=
  ⟨c.name.text, ((c.renamed.map fun part => part.2.2.1).getD c.name.last).text⟩

end ImportClause

/-- Parts of a statement, with a comma before each one but the first. -/
structure Parts (α : Type) where
  first : α
  more : List (Token × α)
  comma_isPunct : ∀ part ∈ more, part.1.isPunct "," = true

namespace Parts

variable {α : Type}

theorem comma_nil : ∀ part ∈ ([] : List (Token × α)), part.1.isPunct "," = true :=
  List.forall_mem_nil _

/-- The parts without the commas. -/
def toList (p : Parts α) : List α := p.first :: p.more.map Prod.snd

/-- The tokens of parts, given the tokens of each. -/
def tokens (tokensOf : α → List Token) (p : Parts α) : List Token :=
  tokensOf p.first ++ p.more.flatMap fun part => part.1 :: tokensOf part.2

end Parts

/-- A statement that imports symbols, perhaps with a word for their kind. -/
structure ImportItem where
  keyword : Token
  keyword_kind : keyword.kind = .useKeyword
  word : Option (Gap × Token)
  word_kind : ∀ part ∈ word,
    part.2.kind = .functionKeyword ∨ part.2.kind = .constKeyword
  clauses : Parts ImportClause
  semicolon : Token
  semicolon_isPunct : semicolon.isPunct ";" = true

/-- The tokens of an import statement. -/
def ImportItem.tokens (u : ImportItem) : List Token :=
  u.keyword :: (u.word.map fun part => part.1.tokens ++ [part.2]).getD [] ++
    u.clauses.tokens ImportClause.tokens ++ [u.semicolon]

/-- One constant of a statement: what stands before its name, such as a type, the name, and the
tokens of its value. -/
structure ConstantClause where
  before : List Token
  before_isPlain : ∀ t ∈ before, t.isPlain = true ∧ endsHead t = false
  name : Token
  name_isIdentifier : name.isIdentifier = true
  after : Gap
  equals : Token
  equals_isPunct : equals.isPunct "=" = true
  value : List Token
  value_isPlain : ∀ t ∈ value, t.isPlain = true
  value_bracketed : Bracketed true value

namespace ConstantClause

theorem before_nil : ∀ t ∈ ([] : List Token), t.isPlain = true ∧ endsHead t = false :=
  List.forall_mem_nil _

/-- The tokens of a constant. -/
def tokens (c : ConstantClause) : List Token :=
  c.before ++ c.name :: c.after.tokens ++ c.equals :: c.value

/-- What a constant declares. -/
def declarator (c : ConstantClause) : Declarator := ⟨c.name, significant c.value⟩

end ConstantClause

/-- A statement that declares constants. -/
structure ConstantItem where
  keyword : Token
  keyword_kind : keyword.kind = .constKeyword
  clauses : Parts ConstantClause
  semicolon : Token
  semicolon_isPunct : semicolon.isPunct ";" = true

/-- The tokens of a constant statement. -/
def ConstantItem.tokens (c : ConstantItem) : List Token :=
  c.keyword :: c.clauses.tokens ConstantClause.tokens ++ [c.semicolon]

/-- What may stand in a namespace. -/
inductive Item
  | braced (b : BracedItem)
  | imports (u : ImportItem)
  | constants (c : ConstantItem)

/-- The tokens of an item. -/
def Item.tokens : Item → List Token
  | .braced b => b.tokens
  | .imports u => u.tokens
  | .constants c => c.tokens

/-! ## Programs -/

/-- Items with the gaps around them. -/
structure Block where
  items : List (Gap × Item)
  trailing : Gap

/-- The tokens of a block. -/
def Block.tokens (b : Block) : List Token :=
  b.items.flatMap (fun entry => entry.1.tokens ++ entry.2.tokens) ++ b.trailing.tokens

/-- A namespace: its name, if it has one, and its block. A block in braces has a closing brace with a
gap after it; any other one ends where the next section begins. -/
structure Section where
  keyword : Token
  keyword_kind : keyword.kind = .namespaceKeyword
  before : Gap
  name : Option QualifiedName
  after : Gap
  opening : Token
  block : Block
  closing : Option (Token × Gap)
  opening_isPunct : opening.isPunct (if closing.isSome then "\x7b" else ";") = true
  closing_isPunct : ∀ ending ∈ closing, ending.1.isPunct "\x7d" = true

namespace Section

theorem closing_none : ∀ ending ∈ (none : Option (Token × Gap)), ending.1.isPunct "\x7d" = true := by
  simp

/-- The tokens of a section up to its block. -/
def head (s : Section) : List Token :=
  s.keyword :: s.before.tokens ++ (s.name.map QualifiedName.tokens).getD [] ++ s.after.tokens ++
    [s.opening]

/-- The tokens of a section. -/
def tokens (s : Section) : List Token :=
  s.head ++ s.block.tokens ++ (s.closing.map fun ending => ending.1 :: ending.2.tokens).getD []

/-- The namespace of a section, which is the global one where it has no name. -/
def space (s : Section) : String := (s.name.map QualifiedName.text).getD ""

end Section

/-- An open tag with items outside of namespaces, and sections. -/
structure Program where
  openTag : Token
  openTag_kind : openTag.kind = .openTag
  block : Block
  sections : List Section

/-- The tokens of a program. -/
def Program.tokens (p : Program) : List Token :=
  p.openTag :: p.block.tokens ++ p.sections.flatMap Section.tokens

/-! ## What a program declares -/

/-- The scope of a section in a file. It extends from the opening token to the closing brace, or else
over the whole block. -/
def Section.scope (file : Token) (s : Section) : Scope where
  level := 1
  parent := some file
  owner := some s.keyword
  first := s.opening.index
  last := some ((s.closing.map fun ending => ending.1.index).getD
    (s.opening.index + s.block.tokens.length))
  braceless := s.closing.isNone

/-- The scope of the file. -/
def Program.scope (p : Program) : Scope where
  owner := some p.openTag
  first := p.openTag.index
  last := some (p.openTag.index + (p.tokens.length - 1))

/-- The scope of a braced item inside of another scope. -/
def BracedItem.scope (home : Scope) (b : BracedItem) : Scope where
  level := home.level + 1
  parent := home.owner
  owner := some b.keyword
  first := b.opening.index
  last := some b.closing.index

/-- What a declared name stands for: a text, the value of an expression in a namespace, or what its
kind and name are defined as. -/
inductive Meaning
  | text (s : String)
  | constant (space : String) (d : Declarator)
  | symbol

/-- A declaration with the meaning of its name. -/
structure Listing where
  declaration : Declaration
  meaning : Meaning

/-- An item in its place: the gap before it, the namespace, and the scope around it. -/
structure Placed where
  gap : Gap
  item : Item
  space : String
  home : Scope

namespace Placed

/-- The imports and constants of an item. -/
def statementListings (x : Placed) : List Listing :=
  match x.item with
  | .braced _ => []
  | .imports u => u.clauses.toList.map fun c =>
    ⟨⟨.useKind, c.clause.name, x.home, u.keyword, ""⟩, .text c.clause.localName⟩
  | .constants c => c.clauses.toList.map fun d =>
    ⟨⟨.constKind, Name.join x.space d.name.text, x.home, c.keyword, x.gap.docComment⟩,
      .constant x.space d.declarator⟩

/-- The function or structure of an item, if it is of a kind. -/
def scopedListing (kind : DeclarationKind) (x : Placed) : Option Listing :=
  match x.item with
  | .braced b =>
    if b.kind = kind then
      some ⟨⟨kind, Name.join x.space b.name.text, b.scope x.home, b.keyword, x.gap.docComment⟩,
        .symbol⟩
    else none
  | _ => none

end Placed

/-- The items of a block in their places. -/
def Block.placed (space : String) (home : Scope) (b : Block) : List Placed :=
  b.items.map fun entry => ⟨entry.1, entry.2, space, home⟩

/-- The namespace that a section declares, if it has a name. -/
def Section.listing (file : Token) (s : Section) : Option Listing :=
  s.name.map fun n => ⟨⟨.namespaceKind, n.text, s.scope file, s.keyword, ""⟩, .text n.text⟩

namespace Program

/-- The items of a program in their places. -/
def placed (p : Program) : List Placed :=
  p.block.placed "" p.scope ++
    p.sections.flatMap fun s => s.block.placed s.space (s.scope p.openTag)

/-- What a program declares: first the namespaces, then imports and constants, then functions and
structures by their kind. -/
def declarations (p : Program) : List Listing :=
  p.sections.filterMap (Section.listing p.openTag) ++ p.placed.flatMap Placed.statementListings ++
    scopedKinds.flatMap fun kind => p.placed.filterMap (Placed.scopedListing kind)

end Program

/-- The definition of a declared name, given the index of the declarations before it. -/
def Listing.define (options : ScanOptions) (index : DeclarationIndex) (l : Listing) :
    Report ScanFault Definition :=
  match l.meaning with
  | .text s => pure (.text s)
  | .constant space d => do
    return .constant (← constantOf options (constantsIn space index) l.declaration.docComment d)
  | .symbol =>
    .ofExcept ((options.define l.declaration.kind l.declaration.name).mapError ScanFault.symbol)

/-- The index of declarations that are added one after the other. -/
def fileAll (options : ScanOptions) (index : DeclarationIndex) (listings : List Listing) :
    Report ScanFault DeclarationIndex :=
  listings.foldlM (fun index l => do file index l.declaration (← l.define options index)) index

end Reflection
