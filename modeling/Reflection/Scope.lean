import Reflection.Token

/-!
# Scopes

A scope is a range of tokens that forms one block: from an opening brace to its closing brace, from
the open tag of a file to its end, or from the semicolon of a namespace statement to the next one.
-/
namespace Reflection

/-- One block of a token stream.

The level is the number of scopes that were open when this one opened. The owner is the keyword
token of the declaration that introduced the block, the open tag for the scope of a file, and none
for an anonymous block. The last position is unknown while the scope is open. -/
structure Scope where
  level : Nat := 0
  parent : Option Token := none
  owner : Option Token := none
  first : Int := -1
  last : Option Int := none
  braceless : Bool := false
  deriving DecidableEq, Repr, Inhabited

namespace Scope

/-- Kind of the owner. -/
def ownerKind? (s : Scope) : Option TokenKind := s.owner.map Token.kind

/-- Kind of the owner of the enclosing scope. -/
def parentKind? (s : Scope) : Option TokenKind := s.parent.map Token.kind

/-- The end of the scope is known. -/
def isClosed (s : Scope) : Bool := s.last.isSome

/-- A position lies in the scope. An open scope extends without end. -/
def contains (s : Scope) (index : Int) : Bool :=
  s.first ≤ index && s.last.all (index ≤ ·)

/-- The scope with its last position. -/
def close (s : Scope) (last : Int) : Scope := { s with last := some last }

end Scope
end Reflection
