import Reflection.Scope.Traversal

/-!
# Visits of raw token streams

A visitor traverses a range of a stream of raw tokens. Raw tokens are read when a traversal reaches
them, so a token that cannot be read ends a traversal there and leaves its scopes open.

## Main definitions

* `TokenRange`: the range, with its setters.
* `Visitor`: the stream, the range, and the scopes that the last traversal left open.
* `Visitor.traverse`, `Visitor.iterate`: a whole traversal and an abandoned one.
-/
namespace Reflection

/-- Why a visitor cannot be made or set up. -/
inductive VisitFault
  /-- What was given is neither a source text nor tokens. -/
  | notTokens (found : String)
  /-- The end of a range lies before its start. -/
  | reversed (start stop : Int)
  /-- An event handler cannot be called. -/
  | notCallable
  deriving DecidableEq, Repr

/-- Wording of a fault. -/
def VisitFault.message : VisitFault → String
  | notTokens _ => "Sequence of tokens or PHP source code text expected"
  | reversed _ _ => "Invalid token range"
  | notCallable => "None or callable expected"

/-- What a fault adds to its wording. -/
def VisitFault.details? : VisitFault → Option String
  | notTokens found => some s!"got {found}"
  | reversed start stop => some s!"{start} > {stop}"
  | notCallable => none

/-- A range of positions of a stream, from `first` to below `stop`. -/
structure TokenRange where
  first : Nat
  stop : Nat
  deriving DecidableEq, Repr

namespace TokenRange

/-- Position of a stream of `count` tokens nearest to an offset. -/
def clamp (count : Nat) (offset : Int) : Nat := min count offset.toNat

/-- The range with another start; its end follows where the start passes it. -/
def setFirst (count : Nat) (r : TokenRange) (offset : Int) : TokenRange :=
  ⟨clamp count offset, max (clamp count offset) r.stop⟩

/-- The range with another end; its start follows where the end passes it. -/
def setStop (count : Nat) (r : TokenRange) (offset : Int) : TokenRange :=
  ⟨min (clamp count offset) r.first, clamp count offset⟩

/-- The range between two offsets; the second must not lie before the first. -/
def between (count : Nat) (start stop : Int) : Except VisitFault TokenRange :=
  if stop < start then .error (.reversed start stop)
  else .ok ⟨clamp count start, clamp count stop⟩

/-- Number of positions. -/
def size (r : TokenRange) : Nat := r.stop - r.first

/-- Elements of a list at the positions of the range. -/
def slice {α : Type} (r : TokenRange) (xs : List α) : List α := (xs.take r.stop).drop r.first

end TokenRange

/-- Raw tokens read from a position on, up to the first one that cannot be read. -/
def readTokens (index : Int) : List RawToken → List Token × Option TokenFault
  | [] => ([], none)
  | raw :: rest =>
    match Token.ofRaw raw index with
    | .error fault => ([], some fault)
    | .ok t =>
      let (tokens, fault) := readTokens (index + 1) rest
      (t :: tokens, fault)

/-- The tokens that can be passed when the one after them cannot be read: the effect of the keyword
`namespace` depends on the next significant token, so it cannot be passed if that one is missing. -/
def decided (tokens : List Token) : List Token :=
  match tokens.reverse.dropWhile Token.isIgnorable with
  | t :: before => if t.kind = .namespaceKeyword then before.reverse else tokens
  | [] => tokens

/-- A stream with the range to traverse and the scopes that the last traversal left open. -/
structure Visitor where
  tokens : List RawToken
  range : TokenRange
  scopes : List Scope := []

/-- Outcome of a traversal: its events, and the fault that ended it before its time. -/
structure Visit where
  events : List Event
  fault : Option TokenFault := none

namespace Visitor

/-- A visitor of a whole stream. -/
def ofTokens (tokens : List RawToken) : Visitor := ⟨tokens, ⟨0, tokens.length⟩, []⟩

/-- The visitor with another range, outside of any traversal. -/
def restrict (v : Visitor) (range : TokenRange) : Visitor := { v with range, scopes := [] }

/-- Innermost scope that is open. -/
def current? (v : Visitor) : Option Scope := v.scopes.head?

/-- The token at a position of the whole stream; negative positions count from the end. None
outside of the stream. -/
def token? (v : Visitor) (index : Int) : Option (Except TokenFault Token) :=
  let position := if index < 0 then index + v.tokens.length else index
  if position < 0 then none
  else v.tokens[position.toNat]?.map (Token.ofRaw · index)

/-- Traverses the range, up to `limit` tokens of it if there is a limit. The open scopes close at
the end of the range; they stay open where a fault ends the traversal, and where the limit does, be
it at the last token. -/
def visit (v : Visitor) (limit : Option Nat) : Visitor × Visit :=
  let (readable, fault) := readTokens v.range.first (v.range.slice v.tokens)
  let passable := if fault.isSome then decided readable else readable
  let passed := match limit with
    | some n => passable.take n
    | none => passable
  let (s, events) := Traversal.run (readable.drop passed.length) {} passed
  if limit.any (· ≤ passable.length) then ({ v with scopes := s.scopes }, ⟨events, none⟩)
  else if fault.isSome then ({ v with scopes := s.scopes }, ⟨events, fault⟩)
  else ({ v with scopes := [] }, ⟨events ++ s.finish (v.range.stop - 1), none⟩)

/-- Traverses the whole range. -/
def traverse (v : Visitor) : Visitor × Visit := v.visit none

/-- Traverses the first `n` tokens of the range and abandons the traversal there. For no token at
all the traversal does not begin. -/
def iterate (v : Visitor) (n : Nat) : Visitor × Visit :=
  if n = 0 then (v, ⟨[], none⟩) else v.visit (some n)

end Visitor
end Reflection
