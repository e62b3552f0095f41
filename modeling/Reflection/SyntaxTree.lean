import Reflection.Text.Blank
import Reflection.Text.Encoding
import Reflection.Text.Case
import Reflection.Text.Identifier
import Reflection.Token

/-!
# Syntax trees of PHP source

A syntax tree covers a sequence of octets. Flattening it gives the token stream of the source: one
token for each leaf, and one for the text between two leaves, which is white space or text that no
node covers. Some nodes count as leaves although they have children.

## Main definitions

* `SyntaxTree`, `SyntaxTree.leaves`.
* `SyntaxTree.tokens`: the token stream of a source with a given tree.
-/
namespace Reflection

open Reflection.Text

/-- A node: its type, whether the grammar names it, the octets it spans, the rows on which it
starts and ends, and its children. -/
inductive SyntaxTree
  | node (type : String) (named : Bool) (start stop startRow stopRow : Nat)
      (children : List SyntaxTree)
  deriving Inhabited

/-- A leaf of a syntax tree. -/
structure Leaf where
  type : String
  named : Bool
  start : Nat
  stop : Nat
  startRow : Nat
  stopRow : Nat
  deriving DecidableEq, Repr

/-- Kind of a node that is taken whole. -/
def atomicKind? : String → Option TokenKind
  | "comment" => some .comment
  | "string" | "encapsed_string" | "heredoc" | "nowdoc" | "shell_command_expression" =>
    some .stringLiteral
  | "variable_name" => some .variableName
  | "integer" | "float" => some .numberLiteral
  | "php_tag" => some .openTag
  | "php_end_tag" => some .closeTag
  | "text" => some .inlineHtml
  | _ => none

/-- Kind of a keyword that takes part in declarations, in lower case. -/
def declarationKeyword? : String → Option TokenKind
  | "namespace" => some .namespaceKeyword
  | "use" => some .useKeyword
  | "as" => some .asKeyword
  | "const" => some .constKeyword
  | "function" => some .functionKeyword
  | "interface" => some .interfaceKeyword
  | "trait" => some .traitKeyword
  | "class" => some .classKeyword
  | _ => none

/-- Kind of a mark that has a kind of its own. -/
def markKind? : String → Option TokenKind
  | "\\" => some .separator
  | "::" => some .doubleColon
  | "?>" => some .closeTag
  | _ => none

namespace SyntaxTree

mutual

/-- The leaves of a tree from left to right: nodes without children and nodes taken whole, empty
ones left out. -/
def leaves : SyntaxTree → List Leaf
  | node type named start stop startRow stopRow children =>
    if (atomicKind? type).isSome || children.isEmpty then
      if start < stop then [⟨type, named, start, stop, startRow, stopRow⟩] else []
    else leavesOfAll children

/-- The leaves of a list of trees. -/
def leavesOfAll : List SyntaxTree → List Leaf
  | [] => []
  | tree :: rest => leaves tree ++ leavesOfAll rest

end

end SyntaxTree

namespace Leaf

/-- Comments that start with two stars document a declaration, the empty comment apart. -/
def isDocumentation (text : String) : Bool :=
  "/**".toList.isPrefixOf text.toList && text != "/**/"

/-- Kind of the token of a leaf. -/
def tokenKind (leaf : Leaf) (text : String) : TokenKind :=
  match atomicKind? leaf.type with
  | some .comment => if isDocumentation text then .docComment else .comment
  | some kind => kind
  | none =>
    if leaf.named then .identifier
    else match declarationKeyword? (lower leaf.type) with
      | some kind => kind
      | none => match markKind? leaf.type with
        | some kind => kind
        | none => if isIdentifier leaf.type then .keyword else .punctuation

end Leaf

/-- Kind of the token of a text that no leaf covers. -/
def gapKind (text : String) : TokenKind := if isBlankText text then .whitespace else .inlineHtml

/-- Text of the octets from `start` to below `stop`. -/
def spanText (content : List UInt8) (start stop : Nat) : String :=
  decodeLossy ((content.take stop).drop start)

/-- Token of the octets from `position` to below `start`, if there are any. -/
def gapToken (content : List UInt8) (position start : Nat) (line index : Int) : List Token :=
  if position < start then
    let text := spanText content position start
    [⟨gapKind text, text, line, index⟩]
  else []

/-- The tokens from a position on, of the leaves that remain. A leaf that ends at or before the
position gives no token. -/
def tokensFrom (content : List UInt8) (position : Nat) (line index : Int) :
    List Leaf → List Token
  | [] => gapToken content position content.length line index
  | leaf :: rest =>
    let gap := gapToken content position leaf.start line index
    let next := index + gap.length
    if leaf.stop ≤ position then gap ++ tokensFrom content position line next rest
    else
      let text := spanText content leaf.start leaf.stop
      gap ++ ⟨leaf.tokenKind text, text, leaf.startRow + 1, next⟩ ::
        tokensFrom content leaf.stop (leaf.stopRow + 1) (next + 1) rest

/-- The token stream of a source that has the given syntax tree. -/
def SyntaxTree.tokens (content : List UInt8) (tree : SyntaxTree) : List Token :=
  tokensFrom content 0 1 0 tree.leaves

end Reflection
