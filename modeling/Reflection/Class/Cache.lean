import Reflection.Class.Table
import Reflection.Text.Case

/-!
# Cache of classes

What is known about a class is kept under its full name in lower case. Classes whose names differ
only in letter case, or not at all, share an entry; the class that was asked for last holds it.

## Main definitions

* `ClassCache`, `ClassCache.visit`.
-/
namespace Reflection

open Reflection.Text

/-- The classes that were asked for, by folded name, each with the number of its entry, and the
number of entries made so far. -/
structure ClassCache where
  entries : Table String (ClassId × Nat) := []
  made : Nat := 0
  deriving DecidableEq, Repr

/-- Name under which a class is kept. -/
def ClassTable.cacheKey (t : ClassTable) (c : ClassId) : String := lower (t.fullName c)

namespace ClassCache

/-- Number of the entry of a class. -/
def entry? (t : ClassTable) (cache : ClassCache) (c : ClassId) : Option Nat :=
  ((Table.find? cache.entries (t.cacheKey c)).filter (·.1 == c)).map Prod.snd

/-- The cache after a class was asked for: it has an entry for that class. -/
def visit (t : ClassTable) (cache : ClassCache) (c : ClassId) : ClassCache :=
  match cache.entry? t c with
  | some _ => cache
  | none => ⟨Table.insert cache.entries (t.cacheKey c) (c, cache.made), cache.made + 1⟩

/-- The cache after several classes were asked for, one after the other. -/
def visitAll (t : ClassTable) (cache : ClassCache) (cs : List ClassId) : ClassCache :=
  cs.foldl (visit t) cache

/-- The cache without its entries. The numbers that were given out do not come again. -/
def clear (cache : ClassCache) : ClassCache := { cache with entries := [] }

/-- There is an entry under a name, letter case being of no account. -/
def hasName (cache : ClassCache) (name : String) : Bool :=
  Table.contains cache.entries (lower name)

/-- Number of entries. -/
def size (cache : ClassCache) : Nat := cache.entries.length

end ClassCache
end Reflection
