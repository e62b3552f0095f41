import Reflection.Text.CaseTable

/-!
# Letter case

Case mappings of whole texts. The lower-case form of a capital sigma depends on its neighbours: it
is the final sigma where a letter stands before it and none after it, characters without influence
on case skipped.
-/
namespace Reflection.Text

/-- Counterpart of a letter in a list of runs, the letter itself when no run holds it. -/
def CaseRun.apply (runs : List CaseRun) (c : Char) : Char :=
  match runs.find? fun r => r.first ≤ c.toNat && c.toNat ≤ r.last &&
      (c.toNat - r.first) % r.step == 0 with
  | some r => Char.ofNat ((c.toNat : Int) + r.shift).toNat
  | none => c

/-- Lower-case form of a character that is not a capital sigma. -/
def lowerChar (c : Char) : List Char :=
  if c.toNat < 0x80 then [c.toLower]
  else match lowerSequences.lookup c.toNat with
    | some letters => letters.map Char.ofNat
    | none => [CaseRun.apply lowerRuns c]

/-- Upper-case form of a character. -/
def upperChar (c : Char) : List Char :=
  if c.toNat < 0x80 then [c.toUpper]
  else match upperSequences.lookup c.toNat with
    | some letters => letters.map Char.ofNat
    | none => [CaseRun.apply upperRuns c]

/-- The nearest character that influences case is a letter. -/
def facesLetter (neighbours : List Char) : Bool :=
  match neighbours.dropWhile caseIgnorableRanges.has with
  | c :: _ => casedRanges.has c
  | [] => false

/-- Lower-case form of the characters that remain; `before` holds the others in reverse. -/
def lowerFrom (before : List Char) : List Char → List Char
  | [] => []
  | c :: rest =>
    (if c = 'Σ' then [if facesLetter before && !facesLetter rest then 'ς' else 'σ']
      else lowerChar c) ++ lowerFrom (c :: before) rest

/-- Lower-case form of a text. -/
def lower (s : String) : String := String.ofList (lowerFrom [] s.toList)

/-- The text with its first character in upper case. -/
def capitalize (s : String) : String :=
  match s.toList with
  | [] => ""
  | c :: rest => String.ofList (upperChar c ++ rest)

end Reflection.Text
