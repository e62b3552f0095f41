import Reflection.Number.Bitwise

/-!
# Requests for access

A request says by flags what it needs and what it permits: the field must be readable or writable;
hidden fields may be used directly, ancestors searched, and accessor methods used, either for fields
that are not public or for all.

## Main definitions

* `AccessFlags`, `AccessFlags.ofInt`.
-/
namespace Reflection

/-- What a request for access needs and permits. A method is forced for public fields only where it
is permitted at all. -/
structure AccessFlags where
  exposesHidden : Bool := false
  needsWrite : Bool := false
  needsRead : Bool := false
  exposesInherited : Bool := false
  permitsWriter : Bool := false
  permitsReader : Bool := false
  forcesWriter : Bool := false
  forcesReader : Bool := false
  deriving DecidableEq, Repr

namespace AccessFlags

/-- Every bit of the required flags is set. -/
def covers (flags required : Int) : Bool := Number.bitAnd flags required == required

/-- The flags that the bits of an integer stand for. -/
def ofInt (n : Int) : AccessFlags where
  exposesHidden := covers n 0x1
  needsWrite := covers n 0x2
  needsRead := covers n 0x4
  exposesInherited := covers n 0x8
  permitsWriter := covers n 0x20
  permitsReader := covers n 0x40
  forcesWriter := covers n 0x200
  forcesReader := covers n 0x400

/-- The flags without the needs. -/
def withoutNeeds (f : AccessFlags) : AccessFlags := { f with needsRead := false, needsWrite := false }

/-- The flags with hidden fields permitted. -/
def exposing (f : AccessFlags) : AccessFlags := { f with exposesHidden := true }

end AccessFlags
end Reflection
