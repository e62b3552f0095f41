/-!
# Encodings

Octets are decoded character by character. UTF-8 is read by maximal invalid stretches: where no
character can be completed, the octets that could still begin one form a single fault.

## Main definitions

* `utf8Units`: the characters of a UTF-8 sequence and its faults.
* `decodeLossy`: UTF-8 with U+FFFD for each fault.
* `Encoding`: the encodings of source files, with strict decoding.
-/
namespace Reflection.Text

/-- What a first octet of UTF-8 announces: the octets to follow, the bounds of the second one, and
the bits that the first octet contributes. -/
structure Utf8Lead where
  following : Nat
  least : Nat
  greatest : Nat
  bits : Nat

/-- Reads the first octet of a character of more than one octet. -/
def Utf8Lead.of? (b : Nat) : Option Utf8Lead :=
  if 0xC2 ≤ b ∧ b ≤ 0xDF then some ⟨1, 0x80, 0xBF, b - 0xC0⟩
  else if b = 0xE0 then some ⟨2, 0xA0, 0xBF, b - 0xE0⟩
  else if b = 0xED then some ⟨2, 0x80, 0x9F, b - 0xE0⟩
  else if 0xE1 ≤ b ∧ b ≤ 0xEF then some ⟨2, 0x80, 0xBF, b - 0xE0⟩
  else if b = 0xF0 then some ⟨3, 0x90, 0xBF, b - 0xF0⟩
  else if 0xF1 ≤ b ∧ b ≤ 0xF3 then some ⟨3, 0x80, 0xBF, b - 0xF0⟩
  else if b = 0xF4 then some ⟨3, 0x80, 0x8F, b - 0xF0⟩
  else none

/-- Reads `following` more octets of a character, the first of them within the given bounds.
Answers the character, or none when an octet is missing or out of bounds, and the number of octets
read. -/
def utf8Tail (following least greatest bits : Nat) : List UInt8 → Option Char × Nat
  | [] => (if following = 0 then some (Char.ofNat bits) else none, 0)
  | b :: rest =>
    match following with
    | 0 => (some (Char.ofNat bits), 0)
    | n + 1 =>
      if least ≤ b.toNat ∧ b.toNat ≤ greatest then
        let (c, used) := utf8Tail n 0x80 0xBF (bits * 64 + (b.toNat - 0x80)) rest
        (c, used + 1)
      else (none, 0)

/-- The characters of a UTF-8 sequence, with none for each maximal stretch that begins a character
and cannot be completed, and for each octet that begins none. -/
def utf8Units : List UInt8 → List (Option Char)
  | [] => []
  | b :: rest =>
    if b.toNat < 0x80 then some (Char.ofNat b.toNat) :: utf8Units rest
    else match Utf8Lead.of? b.toNat with
      | none => none :: utf8Units rest
      | some lead =>
        let (c, used) := utf8Tail lead.following lead.least lead.greatest lead.bits rest
        c :: utf8Units (rest.drop used)
  termination_by bytes => bytes.length
  decreasing_by all_goals simp only [List.length_drop, List.length_cons]; omega

/-- UTF-8 with U+FFFD in place of each fault. -/
def decodeLossy (bytes : List UInt8) : String :=
  String.ofList ((utf8Units bytes).map (·.getD '\uFFFD'))

/-- The octets of a text in UTF-8. -/
def encodeUtf8 (s : String) : List UInt8 := s.toUTF8.toList

/-- Characters of a sequence of little-endian UTF-16 units, with none for a surrogate without its
partner and for a missing octet. -/
def utf16Units : List UInt8 → List (Option Char)
  | [] => []
  | [_] => [none]
  | low :: high :: rest =>
    let unit := high.toNat * 256 + low.toNat
    if 0xD800 ≤ unit ∧ unit ≤ 0xDBFF then
      match rest with
      | low' :: high' :: rest =>
        let next := high'.toNat * 256 + low'.toNat
        if 0xDC00 ≤ next ∧ next ≤ 0xDFFF then
          some (Char.ofNat (0x10000 + (unit - 0xD800) * 0x400 + (next - 0xDC00))) ::
            utf16Units rest
        else [none]
      | _ => [none]
    else if 0xDC00 ≤ unit ∧ unit ≤ 0xDFFF then [none]
    else some (Char.ofNat unit) :: utf16Units rest

/-- Encodings of source files. -/
inductive Encoding
  | utf8
  | latin1
  | ascii
  | utf16LittleEndian
  deriving DecidableEq, Repr

namespace Encoding

/-- Every encoding. -/
def all : List Encoding := [utf8, latin1, ascii, utf16LittleEndian]

/-- The proper name of an encoding, in the form in which names are compared. -/
def properName : Encoding → String
  | utf8 => "utf_8"
  | latin1 => "latin_1"
  | ascii => "ascii"
  | utf16LittleEndian => "utf_16_le"

/-- Further names of an encoding, in the form in which names are compared. -/
def aliases : Encoding → List String
  | utf8 => ["cp65001", "u8", "utf", "utf8", "utf8_ucs2", "utf8_ucs4"]
  | latin1 => [
    "8859", "cp819", "csisolatin1", "ibm819", "iso8859", "iso8859_1", "iso_8859_1",
    "iso_8859_1_1987", "iso_ir_100", "l1", "latin", "latin1"]
  | ascii => [
    "646", "ansi_x3.4_1968", "ansi_x3.4_1986", "ansi_x3_4_1968", "cp367", "csascii", "ibm367",
    "iso646_us", "iso_646.irv_1991", "iso_ir_6", "us", "us_ascii"]
  | utf16LittleEndian => ["unicodelittleunmarked", "utf_16le"]

/-- Characters that tell names of encodings apart. -/
def isSignificant (c : Char) : Bool := c.isAlphanum || c == '.'

/-- The form in which names are compared: in lower case, with one low line in place of each run of
other characters than letters, digits and points, and with none at the ends. -/
def foldName (name : String) : List Char :=
  let words := (name.toList.map Char.toLower).splitOnP (!isSignificant ·)
  ['_'].intercalate (words.filter (!·.isEmpty))

/-- The name for the encoding of the surroundings, which is UTF-8. -/
def localName : String := "locale"

/-- The encoding known under a name. In aliases a point may stand for a low line. -/
def ofName? (name : String) : Option Encoding :=
  let folded := foldName name
  let dotless := String.ofList (folded.map fun c => if c = '.' then '_' else c)
  let folded := String.ofList folded
  if name = localName then some utf8
  else all.find? fun e => e.properName == folded || folded ∈ e.aliases || dotless ∈ e.aliases

end Encoding

/-- Decodes a whole sequence of octets, or answers none when some of them do not encode a
character. -/
def Encoding.decode? (encoding : Encoding) (bytes : List UInt8) : Option (List Char) :=
  match encoding with
  | .utf8 => (utf8Units bytes).mapM id
  | .latin1 => some (bytes.map fun b => Char.ofNat b.toNat)
  | .ascii => bytes.mapM fun b => if b.toNat < 0x80 then some (Char.ofNat b.toNat) else none
  | .utf16LittleEndian => (utf16Units bytes).mapM id

end Reflection.Text
