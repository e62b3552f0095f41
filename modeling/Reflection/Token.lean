import Reflection.Text.Identifier

/-!
# Tokens of PHP source

A token has a kind, its text as written, the line of its first character and its position in the
stream it belongs to. Tokens also come in raw form: an entry of kind label, text and line, or a bare
text, which is a punctuation token of unknown line.

## Main definitions

* `TokenKind`, `Token`, `RawToken`.
* `Token.ofRaw`: the token at a position, from its raw form.
-/
namespace Reflection

open Reflection.Text

/-- Kinds of tokens. -/
inductive TokenKind
  | openTag
  | closeTag
  | inlineHtml
  | namespaceKeyword
  | useKeyword
  | asKeyword
  | constKeyword
  | functionKeyword
  | interfaceKeyword
  | traitKeyword
  | classKeyword
  | keyword
  | identifier
  | separator
  | doubleColon
  | variableName
  | stringLiteral
  | numberLiteral
  | whitespace
  | comment
  | docComment
  | punctuation
  deriving DecidableEq, Repr, Inhabited

namespace TokenKind

/-- Every kind. -/
def all : List TokenKind := [
  openTag, closeTag, inlineHtml, namespaceKeyword, useKeyword, asKeyword, constKeyword,
  functionKeyword, interfaceKeyword, traitKeyword, classKeyword, keyword, identifier, separator,
  doubleColon, variableName, stringLiteral, numberLiteral, whitespace, comment, docComment,
  punctuation]

/-- Label of a kind in raw tokens. -/
def label : TokenKind → String
  | openTag => "T_OPEN_TAG"
  | closeTag => "T_CLOSE_TAG"
  | inlineHtml => "T_INLINE_HTML"
  | namespaceKeyword => "T_NAMESPACE"
  | useKeyword => "T_USE"
  | asKeyword => "T_AS"
  | constKeyword => "T_CONST"
  | functionKeyword => "T_FUNCTION"
  | interfaceKeyword => "T_INTERFACE"
  | traitKeyword => "T_TRAIT"
  | classKeyword => "T_CLASS"
  | keyword => "T_KEYWORD"
  | identifier => "T_STRING"
  | separator => "T_NS_SEPARATOR"
  | doubleColon => "T_DOUBLE_COLON"
  | variableName => "T_VARIABLE"
  | stringLiteral => "T_CONSTANT_ENCAPSED_STRING"
  | numberLiteral => "T_LNUMBER"
  | whitespace => "T_WHITESPACE"
  | comment => "T_COMMENT"
  | docComment => "T_DOC_COMMENT"
  | punctuation => "T_PUNCT"

/-- The kind with a label. -/
def ofLabel? (label : String) : Option TokenKind := all.find? (·.label == label)

/-- Kinds without meaning for the grammar. -/
def isIgnorable : TokenKind → Bool
  | whitespace | comment | docComment => true
  | _ => false

end TokenKind

/-- One token of a stream. The line counts from one and the index from zero; both are negative when
unknown. -/
structure Token where
  kind : TokenKind
  text : String
  line : Int := -1
  index : Int := -1
  deriving DecidableEq, Repr, Inhabited

/-- Tokens before they have a position. -/
inductive RawToken
  | token (t : Token)
  | entry (kind text : String) (line : Int)
  | bare (text : String)
  | misshapen
  deriving DecidableEq, Repr

/-- Why a raw token cannot be read. -/
inductive TokenFault
  | misshapen
  | unknownKind (label : String)
  deriving DecidableEq, Repr

/-- What a token is compared with. -/
inductive TokenPattern
  | kind (k : TokenKind)
  | text (s : String)
  deriving DecidableEq, Repr

namespace Token

/-- The token at a position, from its raw form. -/
def ofRaw (raw : RawToken) (index : Int) : Except TokenFault Token :=
  match raw with
  | .token t => .ok { t with index }
  | .bare text => .ok ⟨.punctuation, text, -1, index⟩
  | .entry label text line =>
    match TokenKind.ofLabel? label with
    | some kind => .ok ⟨kind, text, line, index⟩
    | none => .error (.unknownKind label)
  | .misshapen => .error .misshapen

/-- The token has a kind or a text. -/
def meets (t : Token) : TokenPattern → Bool
  | .kind k => t.kind == k
  | .text s => t.text == s

/-- The token is the punctuation of a text. -/
def isPunct (t : Token) (text : String) : Bool := t.kind == .punctuation && t.text == text

/-- White space and comments are ignorable. -/
def isIgnorable (t : Token) : Bool := t.kind.isIgnorable

/-- Identifier tokens, and keyword tokens spelled like one, can name things. -/
def isIdentifier (t : Token) : Bool :=
  (t.kind == .identifier || t.kind == .keyword) && isLabel t.text

/-- Tokens with the positions `first`, `first + 1` and so on. -/
def number (first : Int) : List Token → List Token
  | [] => []
  | t :: rest => { t with index := first } :: number (first + 1) rest

@[simp] theorem length_number (first : Int) (ts : List Token) :
    (number first ts).length = ts.length := by
  induction ts generalizing first with
  | nil => rfl
  | cons t rest ih => simp [number, ih]

end Token
end Reflection
