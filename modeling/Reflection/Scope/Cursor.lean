import Reflection.Scope.Visitor

/-!
# Traversals that read as they go

A cursor visits a range of a stream of raw tokens one position after another. It reads a token when it
gets there, or when it looks behind or ahead, and keeps what it read in place of the raw token. Of the
declaration that waits for its block it knows the position only. An event handler may observe it; a
handler that fails on an event ends the traversal there. Nothing is tidied up after a traversal that ends
before its time: the next one begins by forgetting what was left.

## Main definitions

* `Cursor`: the stored tokens, the range and the handler, and what a traversal leaves behind.
* `CursorM`: computations of a cursor, which may fail.
* `Cursor.fetch`: reads a token and stores it.
* `Cursor.pass`: the effect of one token.
* `Cursor.visit`: a traversal, whole or abandoned.
* `CursorStep`, `Cursor.after`: what can be done with a cursor, and a history of it.
-/
namespace Reflection

/-- Why a computation of a cursor fails. -/
inductive CursorFault
  /-- No token stands at an index. -/
  | outside (index : Int)
  /-- A raw token cannot be read. -/
  | unreadable (fault : TokenFault)
  /-- The event handler fails on an event. -/
  | refused (event : Event)
  /-- The range or the handler that was given is none. -/
  | setup (fault : VisitFault)
  deriving DecidableEq, Repr

/-- A stream of which some tokens were read, with the range to traverse and the handler of the events of
scopes. Of what was observed up to an event the handler tells whether it takes that event or fails on it.
The rest is the state of a traversal: the open scopes, the position of the keyword that waits for its block,
and what was observed. -/
structure Cursor where
  entries : List RawToken
  range : TokenRange
  handler : Option (List Event → Bool) := none
  scopes : List Scope := []
  pending : Option Nat := none
  log : List Event := []

/-- Computations of a cursor. One that fails leaves the cursor as it was then. -/
abbrev CursorM := ExceptT CursorFault (StateM Cursor)

/-- Outcome of a computation, and the cursor that it leaves. -/
def CursorM.on {α : Type} (m : CursorM α) (c : Cursor) : Except CursorFault α × Cursor := m.run.run c

namespace Cursor

/-- Looks something up. -/
def look {α : Type} (f : Cursor → α) : CursorM α := return f (← get)

/-- A cursor on a whole stream. -/
def ofTokens (tokens : List RawToken) : Cursor := { entries := tokens, range := ⟨0, tokens.length⟩ }

/-! ## Reading -/

/-- The element at an index of a list, with its position; negative indexes count from the end. -/
def locate? {α : Type} (xs : List α) (index : Int) : Option (Nat × α) :=
  let position := if index < 0 then index + xs.length else index
  if position < 0 then none else xs[position.toNat]?.map (position.toNat, ·)

/-- The token at an index of the whole stream, read with that index and stored so. -/
def fetch (index : Int) : CursorM Token := do
  match locate? (← look Cursor.entries) index with
  | none => throw (.outside index)
  | some (position, raw) =>
    match Token.ofRaw raw index with
    | .error fault => throw (.unreadable fault)
    | .ok t =>
      modify fun c => { c with entries := c.entries.set position (.token t) }
      return t

/-- The last token that is not ignorable at the `n` positions from `first` on. -/
def lastSignificant? (first : Nat) : Nat → CursorM (Option Token)
  | 0 => return none
  | n + 1 => do
    let t ← fetch (first + n : Nat)
    if t.isIgnorable then lastSignificant? first n else return some t

/-- The first token that is not ignorable at the `n` positions from `index` on. -/
def nextSignificant? (index : Nat) : Nat → CursorM (Option Token)
  | 0 => return none
  | n + 1 => do
    let t ← fetch index
    if t.isIgnorable then nextSignificant? (index + 1) n else return some t

/-- The keyword that waits for its block. -/
def waiting? : CursorM (Option Token) := do
  match ← look Cursor.pending with
  | none => return none
  | some position => return some (← fetch position)

/-! ## Observing -/

/-- Records what is observed without a handler. -/
def note (event : Event) : CursorM Unit := modify fun c => { c with log := c.log ++ [event] }

/-- Hands an event to the handler, if there is one. -/
def report (event : Event) : CursorM Unit := do
  match ← look Cursor.handler with
  | none => return ()
  | some takes =>
    note event
    unless takes (← look Cursor.log) do throw (.refused event)

/-! ## Scopes -/

/-- A keyword waits for its block. -/
def await (position : Option Nat) : CursorM Unit := modify fun c => { c with pending := position }

/-- Opens a scope at a position. It belongs to the declaration that waits for its block. -/
def openScope (index : Nat) (braceless : Bool) : CursorM Unit := do
  let scopes ← look Cursor.scopes
  let owner ← waiting?
  let scope : Scope :=
    { level := scopes.length, parent := scopes.head?.bind Scope.owner, owner, first := index, braceless }
  modify fun c => { c with scopes := scope :: scopes, pending := none }
  report (.opened scope)

/-- Closes the innermost open scope at a position, or at the end of the range if that comes before. -/
def closeScope (last : Int) : CursorM Unit := do
  match ← look Cursor.scopes with
  | [] => note (.unbalanced last)
  | scope :: rest =>
    modify fun c => { c with scopes := rest }
    let range ← look Cursor.range
    report (.closed (scope.close (min last (range.stop - 1))))

/-- Closes the innermost open scope before a position, but not before its start, if it is a namespace
without braces. -/
def closeBraceless (index : Nat) : CursorM Unit := do
  match ← look Cursor.scopes with
  | [] => return ()
  | scope :: _ => if scope.braceless then closeScope (max scope.first (index - 1)) else return ()

/-- A semicolon opens the scope of a namespace statement, and ends a function without a body. -/
def terminate (index : Nat) : CursorM Unit := do
  match (← waiting?).map Token.kind with
  | some .namespaceKeyword => openScope index true
  | some .functionKeyword => await none
  | _ => return ()

/-! ## Traversals -/

/-- Effect of a token at a position on the scopes and on the waiting declaration. -/
def process (index : Nat) (t : Token) : CursorM Unit := do
  let scopes ← look Cursor.scopes
  let range ← look Cursor.range
  match t.kind with
  | .openTag =>
    if scopes.isEmpty then
      await (some index)
      openScope index false
  | .namespaceKeyword =>
    let next ← nextSignificant? (index + 1) (range.stop - (index + 1))
    unless next.any (·.kind == .separator) do
      closeBraceless index
      await (some index)
  | .interfaceKeyword | .traitKeyword => await (some index)
  | .classKeyword =>
    let previous ← lastSignificant? range.first (index - range.first)
    unless previous.any (·.kind == .doubleColon) do await (some index)
  | .functionKeyword =>
    if (scopes.head?.bind Scope.ownerKind?).any Traversal.ownsFunctions then await (some index)
  | .punctuation =>
    if t.text = ";" then terminate index
    else if t.text = "\x7b" then openScope index false
    else if t.text = "\x7d" then closeScope index
  | _ => return ()

/-- Passes the token at a position. -/
def pass (index : Nat) : CursorM Unit := do
  let t ← fetch index
  process index t
  note (.passed t (← look Cursor.scopes).head?)

/-- Passes the tokens at `n` positions from `index` on. -/
def passFrom (index : Nat) : Nat → CursorM Unit
  | 0 => return ()
  | n + 1 => do
    pass index
    passFrom (index + 1) n

/-- Closes every open scope at the end of the range, the innermost first. -/
def closeAll : CursorM Unit := do
  let scopes ← look Cursor.scopes
  let range ← look Cursor.range
  scopes.forM fun _ => closeScope range.stop

/-- Forgets what a traversal left behind. -/
def reset : CursorM Unit := modify fun c => { c with scopes := [], pending := none }

/-- Passes the tokens of the range and closes what is open then. A limit ends this after so many tokens,
be it at the last one of the range, and nothing is closed. -/
def sweep (limit : Option Nat) : CursorM Unit := do
  let range ← look Cursor.range
  passFrom range.first (limit.elim range.size (min range.size))
  unless limit.any (· ≤ range.size) do closeAll

/-- Traverses the range, up to a limit of tokens if there is one. For no token at all the traversal does not
begin. -/
def visit (limit : Option Nat) : CursorM Unit := do
  modify fun c => { c with log := [] }
  unless limit = some 0 do
    reset
    sweep limit

/-! ## Histories -/

/-- Traverses another range from now on. -/
def setRange (range : Except VisitFault TokenRange) : CursorM Unit := do
  match range with
  | .error fault => throw (.setup fault)
  | .ok range =>
    modify fun c => { c with range }
    reset

end Cursor

/-- What can be done with a cursor. -/
inductive CursorStep
  /-- A traversal, whole or abandoned after some tokens. -/
  | visit (limit : Option Nat)
  /-- The token at an index. -/
  | token (index : Int)
  /-- Another start of the range. -/
  | setFirst (offset : Int)
  /-- Another end of the range. -/
  | setStop (offset : Int)
  /-- Another range. -/
  | setBetween (start stop : Int)
  /-- Another handler, or none. -/
  | setHandler (handler : Option (List Event → Bool))
  /-- Something for a handler that cannot be called. -/
  | setUncallable

/-- Effect of a step. -/
def CursorStep.perform : CursorStep → CursorM Unit
  | visit limit => Cursor.visit limit
  | token index => discard (Cursor.fetch index)
  | setFirst offset => do
    let c ← get
    Cursor.setRange (.ok (c.range.setFirst c.entries.length offset))
  | setStop offset => do
    let c ← get
    Cursor.setRange (.ok (c.range.setStop c.entries.length offset))
  | setBetween start stop => do
    let c ← get
    Cursor.setRange (TokenRange.between c.entries.length start stop)
  | setHandler handler => modify fun c => { c with handler }
  | setUncallable => throw (.setup .notCallable)

/-- The cursor after a history of steps, failed ones included. -/
def Cursor.after (c : Cursor) (history : List CursorStep) : Cursor :=
  history.foldl (fun c step => (step.perform.on c).2) c

end Reflection
