import Reflection.Scope

/-!
# Traversal of token streams

One pass over a token stream recovers its blocks without a grammar of PHP. The state is the stack of
open scopes, the declaration keyword that waits for its block, and the last significant token. Every
pass is recorded as a list of events.

## Main definitions

* `Traversal`: the state, with one `step` a token.
* `Traversal.run`: the events of a stretch of tokens.
* `Traversal.events`: the events of a whole range, which closes every scope at its end.
-/
namespace Reflection

/-- What happens in a traversal. -/
inductive Event
  /-- A scope opens. -/
  | opened (scope : Scope)
  /-- A scope closes. -/
  | closed (scope : Scope)
  /-- A closing brace stands where no scope is open. -/
  | unbalanced (index : Int)
  /-- A token was passed, with the innermost scope that is open after it. -/
  | passed (token : Token) (scope : Option Scope)
  deriving DecidableEq, Repr

/-- State of a traversal: the open scopes, innermost first, the declaration keyword whose block has
not begun, and the kind of the last significant token. -/
structure Traversal where
  scopes : List Scope := []
  pending : Option Token := none
  previous : Option TokenKind := none
  deriving DecidableEq, Repr, Inhabited

namespace Traversal

/-- Owners of the scopes in which the keyword `function` declares something. -/
def ownsFunctions : TokenKind → Bool
  | .openTag | .namespaceKeyword | .traitKeyword | .classKeyword => true
  | _ => false

/-- The innermost open scope. -/
def current? (s : Traversal) : Option Scope := s.scopes.head?

/-- Opens a scope at a position. It belongs to the declaration that waits for its block. -/
def openScope (s : Traversal) (index : Int) (braceless : Bool) : Traversal × List Event :=
  let scope : Scope :=
    { level := s.scopes.length, parent := s.current?.bind Scope.owner, owner := s.pending,
      first := index, braceless }
  ({ s with scopes := scope :: s.scopes, pending := none }, [.opened scope])

/-- Closes the innermost open scope, its last position being `last`. -/
def closeScope (s : Traversal) (last : Int) : Traversal × List Event :=
  match s.scopes with
  | [] => (s, [.unbalanced last])
  | scope :: rest => ({ s with scopes := rest }, [.closed (scope.close last)])

/-- Closes the innermost open scope before a position, if it is a namespace without braces. -/
def closeBraceless (s : Traversal) (index : Int) : Traversal × List Event :=
  match s.scopes with
  | scope :: _ => if scope.braceless then s.closeScope (index - 1) else (s, [])
  | [] => (s, [])

/-- A semicolon opens the scope of a namespace statement, and ends a function without a body. -/
def terminate (s : Traversal) (index : Int) : Traversal × List Event :=
  match s.pending.map Token.kind with
  | some .namespaceKeyword => s.openScope index true
  | some .functionKeyword => ({ s with pending := none }, [])
  | _ => (s, [])

/-- Effect of a token that stands before `rest` on the scopes and on the waiting declaration. -/
def process (s : Traversal) (t : Token) (rest : List Token) : Traversal × List Event :=
  match t.kind with
  | .openTag =>
    if s.scopes.isEmpty then { s with pending := some t }.openScope t.index false else (s, [])
  | .namespaceKeyword =>
    if (rest.find? (!·.isIgnorable)).any (·.kind == .separator) then (s, [])
    else
      let (s, events) := s.closeBraceless t.index
      ({ s with pending := some t }, events)
  | .interfaceKeyword | .traitKeyword => ({ s with pending := some t }, [])
  | .classKeyword =>
    (if s.previous = some .doubleColon then s else { s with pending := some t }, [])
  | .functionKeyword =>
    (if (s.current?.bind Scope.ownerKind?).any ownsFunctions then { s with pending := some t }
      else s, [])
  | .punctuation =>
    if t.text = ";" then s.terminate t.index
    else if t.text = "\x7b" then s.openScope t.index false
    else if t.text = "\x7d" then s.closeScope t.index
    else (s, [])
  | _ => (s, [])

/-- Passes one token. -/
def step (s : Traversal) (t : Token) (rest : List Token) : Traversal × List Event :=
  let (s, events) := s.process t rest
  let s := if t.isIgnorable then s else { s with previous := some t.kind }
  (s, events ++ [.passed t s.current?])

/-- Passes the tokens of a stretch that stands before `beyond`. -/
def run (beyond : List Token) (s : Traversal) : List Token → Traversal × List Event
  | [] => (s, [])
  | t :: rest =>
    let (s, events) := s.step t (rest ++ beyond)
    let (s, later) := run beyond s rest
    (s, events ++ later)

/-- Events at the end of a range whose last token is at `last`: every open scope closes, the
innermost first. -/
def finish (s : Traversal) (last : Int) : List Event :=
  s.scopes.map fun scope => .closed (scope.close last)

/-- Events of a traversal of numbered tokens. -/
def events (tokens : List Token) : List Event :=
  let (s, events) := run [] {} tokens
  events ++ s.finish ((tokens.getLast?.map Token.index).getD (-1))

end Traversal

/-- The scopes that close in a list of events, in order. -/
def closedScopes (events : List Event) : List Scope :=
  events.filterMap fun
    | .closed scope => some scope
    | _ => none

/-- Warning about a closing brace that closes nothing. -/
def Event.warning? : Event → Option String
  | .unbalanced index => some s!"Unbalanced closing bracket at token {index}"
  | _ => none

end Reflection
