import Reflection.Scope
import Reflection.Value

/-!
# Declarations

What a PHP source file declares: namespaces, imports, constants, functions, interfaces, traits and
classes. Interfaces, traits and classes are the structures.

## Main definitions

* `DeclarationKind`, `Declaration`: what is declared, and where.
* `Constant`, `Handle`, `Definition`: what a declaration stands for.
-/
namespace Reflection

/-- Kinds of declarations. -/
inductive DeclarationKind
  | namespaceKind
  | useKind
  | constKind
  | functionKind
  | interfaceKind
  | traitKind
  | classKind
  deriving DecidableEq, Repr

namespace DeclarationKind

/-- Every kind. -/
def all : List DeclarationKind :=
  [namespaceKind, useKind, constKind, functionKind, interfaceKind, traitKind, classKind]

/-- Word for a kind. -/
def label : DeclarationKind → String
  | namespaceKind => "namespace"
  | useKind => "use"
  | constKind => "const"
  | functionKind => "function"
  | interfaceKind => "interface"
  | traitKind => "trait"
  | classKind => "class"

/-- The kind with a label. -/
def ofLabel? (label : String) : Option DeclarationKind := all.find? (·.label == label)

/-- The structures, in the order in which they are listed. -/
def structures : List DeclarationKind := [interfaceKind, traitKind, classKind]

/-- Order in which the kinds of a name are tried. -/
def resolutionOrder : List DeclarationKind :=
  [interfaceKind, traitKind, classKind, functionKind, constKind]

/-- Kind of the declaration that owns a scope, by the kind of its keyword. -/
def ofOwner? : TokenKind → Option DeclarationKind
  | .namespaceKeyword => some namespaceKind
  | .functionKeyword => some functionKind
  | .interfaceKeyword => some interfaceKind
  | .traitKeyword => some traitKind
  | .classKeyword => some classKind
  | _ => none

end DeclarationKind

/-- A constant of a file or of a structure. The value is the text of the expression where that is
not evaluated. -/
structure Constant where
  name : String
  value : Value
  docComment : String := ""
  expression : String := ""
  deriving Inhabited

/-- What a program knows a loaded symbol by: an object known by its label, or a text. -/
inductive Handle
  | object (label : String)
  | text (s : String)
  deriving DecidableEq, Repr

/-- What a declared name stands for: a name or other text, a constant, or a loaded object. -/
inductive Definition
  | text (s : String)
  | constant (c : Constant)
  | object (label : String)
  deriving Inhabited

/-- The definition that a handle gives. -/
def Definition.ofHandle : Handle → Definition
  | .object label => .object label
  | .text s => .text s

/-- Where and how an element is declared. The scope is the one that the declaration owns, or the one
it appears in where it owns none. -/
structure Declaration where
  kind : DeclarationKind
  name : String
  scope : Scope
  token : Token
  docComment : String := ""
  deriving DecidableEq, Repr

/-- Line of the keyword of a declaration. -/
def Declaration.line (d : Declaration) : Int := d.token.line

end Reflection
