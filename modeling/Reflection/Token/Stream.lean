import Reflection.Text.Case
import Reflection.Token

/-!
# Reading token streams

Readers work on the tokens that remain and answer what they read with the tokens after it. A
position in a stream may also be negative: positions then count from the end, and reading goes on at
the start of the stream once its end is reached.

## Main definitions

* `skipIgnorable`, `previousSignificant?`, `docCommentBefore`: white space and comments.
* `takeName`: the qualified name at the start of the remaining tokens.
* `takeExpression`: the value of a constant, up to its terminator.
-/
namespace Reflection.Token

open Reflection.Text

/-- The remaining tokens from the first one that is not ignorable. -/
def skipIgnorable (rest : List Token) : List Token := rest.dropWhile isIgnorable

/-- The tokens that are not ignorable. -/
def significant (ts : List Token) : List Token := ts.filter (!·.isIgnorable)

/-- The last token that is not ignorable of those before a position, given in reverse. -/
def previousSignificant? (before : List Token) : Option Token := before.find? (!·.isIgnorable)

/-- Texts of the documentation comments at the end of a run of tokens, given in reverse. The run
extends over ignorable tokens and over tokens whose text, in lower case, is one of `skipped`. -/
def docCommentBefore (skipped : List String) : List Token → String
  | [] => ""
  | t :: before =>
    if t.kind = .docComment then docCommentBefore skipped before ++ t.text
    else if lower t.text ∈ skipped ∨ t.isIgnorable then docCommentBefore skipped before
    else ""

/-- The text of tokens as written. -/
def spelling (ts : List Token) : String := String.join (ts.map Token.text)

/-- A token continues a qualified name. Separators and identifiers always do, the keyword
`namespace` does before a separator, and any other word does after a separator. -/
def continuesName (afterSeparator : Bool) (t : Token) (rest : List Token) : Bool :=
  t.kind == .separator || (t.kind == .identifier && isLabel t.text) ||
    (t.kind == .namespaceKeyword && rest.head?.any (·.kind == .separator)) ||
    (afterSeparator && t.isIdentifier)

/-- The tokens of the qualified name at the start of the remaining tokens, and the tokens after
it. -/
def takeNameTokens (afterSeparator : Bool) : List Token → List Token × List Token
  | [] => ([], [])
  | t :: rest =>
    if t.continuesName afterSeparator rest then
      let (name, left) := takeNameTokens (t.text == "\\") rest
      (t :: name, left)
    else ([], t :: rest)

/-- The qualified name at the start of the remaining tokens, empty if there is none, and the tokens
after it. -/
def takeName (rest : List Token) : String × List Token :=
  let (name, left) := takeNameTokens false rest
  (spelling name, left)

/-- Closing bracket of an opening one. -/
def closingBracket? : String → Option String
  | "(" => some ")"
  | "[" => some "]"
  | "\x7b" => some "\x7d"
  | _ => none

/-- Brackets still to be closed after a token. -/
def bracketsAfter (closing : List String) (t : Token) : List String :=
  if t.kind = .punctuation then
    match closingBracket? t.text with
    | some bracket => bracket :: closing
    | none => if closing.head? = some t.text then closing.tail else closing
  else closing

/-- A token ends an expression when it is a semicolon or a comma outside all brackets. -/
def endsExpression (closing : List String) (t : Token) : Bool :=
  closing.isEmpty && (t.isPunct ";" || t.isPunct ",")

/-- The significant tokens of an expression and the remaining tokens from its terminator. -/
def takeExpression (closing : List String) : List Token → List Token × List Token
  | [] => ([], [])
  | t :: rest =>
    if t.endsExpression closing then ([], t :: rest)
    else
      let (expression, left) := takeExpression (bracketsAfter closing t) rest
      (if t.isIgnorable then expression else t :: expression, left)

theorem length_takeNameTokens (b : Bool) (ts : List Token) :
    (takeNameTokens b ts).2.length ≤ ts.length := by
  induction ts generalizing b with
  | nil => simp [takeNameTokens]
  | cons t rest ih =>
    simp only [takeNameTokens]
    split
    · have := ih (t.text == "\\")
      simp only [List.length_cons]; omega
    · simp

theorem length_takeExpression (closing : List String) (ts : List Token) :
    (takeExpression closing ts).2.length ≤ ts.length := by
  induction ts generalizing closing with
  | nil => simp [takeExpression]
  | cons t rest ih =>
    simp only [takeExpression]
    split
    · simp
    · have := ih (bracketsAfter closing t)
      simp only [List.length_cons]; omega

theorem length_skipIgnorable (ts : List Token) : (skipIgnorable ts).length ≤ ts.length :=
  (List.dropWhile_suffix _).length_le

/-! ## Positions -/

/-- Tokens that remain at a position, none before the start of the stream. -/
def remainingAt? (tokens : List Token) (index : Int) : Option (List Token) :=
  if 0 ≤ index then some (tokens.drop index.toNat)
  else if -(tokens.length : Int) ≤ index then
    some (tokens.drop (tokens.length + index).toNat ++ tokens)
  else none

/-- Position of the first of the tokens left by a reader that started at `index`. -/
def indexAfter (index : Int) (remaining left : List Token) : Int :=
  index + ((remaining.length : Int) - (left.length : Int))

/-- Position of the first token that is not ignorable among the positions from `index` to below
`count`, and `count` if there is none; none when a position outside of the stream is reached. -/
def skipIgnorableTo? (tokens : List Token) (index count : Int) : Option Int :=
  if count ≤ index then some index
  else do
    let remaining ← remainingAt? tokens index
    let looked := remaining.take (count - index).toNat
    let left := skipIgnorable looked
    if left.isEmpty && looked.length < (count - index).toNat then none
    else some (indexAfter index looked left)

/-- Position of the last token that is not ignorable before a position; when there is none, the
position before the first one looked at. -/
def previousSignificantIndex? (tokens : List Token) (index : Int) : Option Int :=
  if (tokens.length : Int) < index then none
  else
    let left := ((tokens.take index.toNat).reverse).dropWhile isIgnorable
    some (if index ≤ 0 then index - 1 else (left.length : Int) - 1)

/-- Documentation comment that ends at or before a position; the texts in `skip` are passed over in
any letter case. -/
def docCommentAt? (tokens : List Token) (index : Int) (skip : List String) : Option String :=
  if (tokens.length : Int) ≤ index then none
  else some (docCommentBefore (skip.map lower) (tokens.take (index + 1).toNat).reverse)

end Reflection.Token
