import Reflection.Constant.StringLiteral

/-!
# Texts between quotes

A text is written as a literal with a backslash before each character that means something between the
quotes in use: the backslash and the quote, and between double quotes the dollar sign. Every other
character stands for itself, also where it would make an escape or a variable of a character that has no
backslash. A literal written in this way denotes the text.

## Main definitions

* `escapeMarks`: a text with a backslash before each of some characters.
* `inSingleQuotes`, `inDoubleQuotes`: literals of a text.

## Main statements

* `decodeSingle_escapeMarks`, `decodeDouble_escapeMarks`: decoding what was escaped.
* `parseString_quoted`: the literals of a text denote it.
-/
namespace Reflection

open Reflection.Text

/-- A text with a backslash before each of the characters of a list. -/
def escapeMarks (marks cs : List Char) : List Char :=
  cs.flatMap fun c => if c ∈ marks then ['\\', c] else [c]

/-- The characters that are escaped between single quotes. -/
def singleMarks : List Char := ['\\', '\'']

/-- The characters that are escaped between double quotes and in heredocs. -/
def doubleMarks : List Char := ['\\', '"', '$']

/-- A text as a literal between single quotes. -/
def inSingleQuotes (s : String) : String :=
  "'" ++ String.ofList (escapeMarks singleMarks s.toList) ++ "'"

/-- A text as a literal between double quotes. -/
def inDoubleQuotes (s : String) : String :=
  "\"" ++ String.ofList (escapeMarks doubleMarks s.toList) ++ "\""

/-- What may stand before the first quote of a literal: nothing, or the letter of binary strings. -/
def binaryMarks : List String := ["", "b", "B"]

/-! ## Escaped texts -/

section

variable {marks cs : List Char} {c : Char}

@[simp] theorem escapeMarks_nil : escapeMarks marks [] = [] := rfl

theorem escapeMarks_cons_of_mem (h : c ∈ marks) :
    escapeMarks marks (c :: cs) = '\\' :: c :: escapeMarks marks cs := by
  simp only [escapeMarks, List.flatMap_cons, if_pos h, List.cons_append, List.nil_append]

theorem escapeMarks_cons_of_not_mem (h : c ∉ marks) :
    escapeMarks marks (c :: cs) = c :: escapeMarks marks cs := by
  simp only [escapeMarks, List.flatMap_cons, if_neg h, List.cons_append, List.nil_append]

/-- An escaped text does not begin with a character that is escaped, the backslash apart. -/
theorem head_escapeMarks_ne (hc : c ∈ marks) (hslash : c ≠ '\\') :
    (escapeMarks marks cs).head? ≠ some c := by
  cases cs with
  | nil => exact nofun
  | cons d rest =>
    by_cases hd : d ∈ marks
    · rw [escapeMarks_cons_of_mem hd, List.head?_cons]
      exact fun h => hslash (Option.some.inj h).symm
    · rw [escapeMarks_cons_of_not_mem hd, List.head?_cons]
      exact fun h => hd (Option.some.inj h ▸ hc)

end

/-! ## Single quotes -/

theorem decodeSingle_cons {c : Char} (h : c ≠ '\\') (rest : List Char) :
    decodeSingle (c :: rest) = c :: decodeSingle rest := by
  rw [decodeSingle]
  exact fun _ _ hslash _ => h hslash

/-- Between single quotes an escaped text denotes the text. -/
theorem decodeSingle_escapeMarks (cs : List Char) :
    decodeSingle (escapeMarks singleMarks cs) = cs := by
  induction cs with
  | nil => rfl
  | cons c rest ih =>
    by_cases hc : c ∈ singleMarks
    · have hmark : c = '\\' ∨ c = '\'' := by simpa [singleMarks] using hc
      rw [escapeMarks_cons_of_mem hc, decodeSingle, if_pos hmark, ih]
    · have hslash : c ≠ '\\' := fun h => hc (h ▸ List.mem_cons_self)
      rw [escapeMarks_cons_of_not_mem hc, decodeSingle_cons hslash, ih]

/-! ## Double quotes -/

/-- Each character that is escaped between double quotes is an escape of itself. -/
theorem escape?_of_mem_doubleMarks {c : Char} (h : c ∈ doubleMarks) (rest : List Char) :
    escape? (c :: rest) = some (c.toNat, 1) ∧ codePointOf c.toNat = .ok (.char c) := by
  have hmark : c = '\\' ∨ c = '"' ∨ c = '$' := by simpa [doubleMarks] using h
  rcases hmark with rfl | rfl | rfl <;> exact ⟨rfl, rfl⟩

theorem decodeEscapes_cons {c : Char} (h : c ≠ '\\') (rest : List Char) :
    decodeEscapes (c :: rest) = (decodeEscapes rest).map (.char c :: ·) := by
  rw [decodeEscapes, if_neg h]

/-- Between double quotes an escaped text has the code points of the text. -/
theorem decodeEscapes_escapeMarks (cs : List Char) :
    decodeEscapes (escapeMarks doubleMarks cs) = .ok (cs.map .char) := by
  induction cs with
  | nil => rw [escapeMarks_nil, decodeEscapes, List.map_nil]
  | cons c rest ih =>
    by_cases hc : c ∈ doubleMarks
    · obtain ⟨hescape, hpoint⟩ :=
        escape?_of_mem_doubleMarks hc (escapeMarks doubleMarks rest)
      rw [escapeMarks_cons_of_mem hc, decodeEscapes, if_pos rfl, hescape]
      simp only [hpoint, List.drop_succ_cons, List.drop_zero, ih]
      rfl
    · have hslash : c ≠ '\\' := fun h => hc (h ▸ List.mem_cons_self)
      rw [escapeMarks_cons_of_not_mem hc, decodeEscapes_cons hslash, ih]
      rfl

/-- No variable begins in an escaped text: each dollar sign stands behind a backslash, so it neither
begins a name nor follows a brace. -/
theorem hasInterpolation_escapeMarks (previous : Option Char) (cs : List Char) :
    hasInterpolation previous (escapeMarks doubleMarks cs) = false := by
  induction cs generalizing previous with
  | nil => rfl
  | cons c rest ih =>
    have hdollar : (escapeMarks doubleMarks rest).head? ≠ some '$' :=
      head_escapeMarks_ne (by decide) (by decide)
    by_cases hc : c ∈ doubleMarks
    · rw [escapeMarks_cons_of_mem hc, hasInterpolation]
      cases hrest : escapeMarks doubleMarks rest with
      | nil => simp [hasInterpolation]
      | cons d after => simp [hasInterpolation, ← hrest, ih]
    · have hmark : c ≠ '$' := fun h => absurd (h ▸ hc) (by decide)
      rw [escapeMarks_cons_of_not_mem hc]
      cases hrest : escapeMarks doubleMarks rest with
      | nil => rfl
      | cons d after =>
        have hd : d ≠ '$' := fun h => hdollar (by rw [hrest, h]; rfl)
        simp [hasInterpolation, ← hrest, ih, hmark, hd]

/-- Between double quotes and in heredocs an escaped text denotes the text. -/
theorem decodeDouble_escapeMarks (line : Int) (cs : List Char) :
    decodeDouble line (escapeMarks doubleMarks cs) = .ok (.ofChars cs) := by
  simp only [decodeDouble, hasInterpolation_escapeMarks, Bool.false_eq_true, if_false,
    decodeEscapes_escapeMarks]
  rfl

/-! ## Literals -/

section

variable {q : Char} {mark : String}

/-- The letter of binary strings is passed over. -/
theorem dropBinaryMark_quoted (hmark : mark ∈ binaryMarks) (hq : q = '\'' ∨ q = '"')
    (rest : List Char) : dropBinaryMark (mark.toList ++ q :: rest) = q :: rest := by
  have hmark' : mark = "" ∨ mark = "b" ∨ mark = "B" := by simpa [binaryMarks] using hmark
  rcases hmark' with rfl | rfl | rfl
  · have hletter : ¬ (q = 'b' ∨ q = 'B') := by
      rcases hq with rfl | rfl <;> decide
    cases rest with
    | nil => rfl
    | cons d after => exact if_neg fun h => hletter h.1
  · exact if_pos ⟨.inl rfl, hq⟩
  · exact if_pos ⟨.inr rfl, hq⟩

theorem between?_quoted (q : Char) (body : List Char) :
    between? q (q :: (body ++ [q])) = some body := by
  simp [between?]

theorem between?_of_ne {c : Char} (h : c ≠ q) (rest : List Char) :
    between? q (c :: rest) = none := by
  simp [between?, h]

/-- The text of a literal between single quotes. -/
theorem parseString_single (hmark : mark ∈ binaryMarks) (body : List Char) (line : Int) :
    parseString (mark ++ ("'" ++ String.ofList body ++ "'")) line =
      .ok (.ofChars (decodeSingle body)) := by
  have htext : (mark ++ ("'" ++ String.ofList body ++ "'")).toList =
      mark.toList ++ '\'' :: (body ++ ['\'']) := by
    simp [String.toList_append]
  simp only [parseString, htext, dropBinaryMark_quoted hmark (.inl rfl), between?_quoted]

/-- The text of a literal between double quotes. -/
theorem parseString_double (hmark : mark ∈ binaryMarks) (body : List Char) (line : Int) :
    parseString (mark ++ ("\"" ++ String.ofList body ++ "\"")) line = decodeDouble line body := by
  have htext : (mark ++ ("\"" ++ String.ofList body ++ "\"")).toList =
      mark.toList ++ '"' :: (body ++ ['"']) := by
    simp [String.toList_append]
  have hsingle : between? '\'' ('"' :: (body ++ ['"'])) = none := between?_of_ne (by decide) _
  simp only [parseString, htext, dropBinaryMark_quoted hmark (.inr rfl), hsingle, between?_quoted]

end

/-- Whatever the characters of a text look like, its literals between single and double quotes, with or
without the letter of binary strings, denote it. -/
theorem parseString_quoted (s : String) (line : Int) {mark : String} (hmark : mark ∈ binaryMarks) :
    parseString (mark ++ inSingleQuotes s) line = .ok (.ofString s) ∧
      parseString (mark ++ inDoubleQuotes s) line = .ok (.ofString s) := by
  constructor
  · rw [inSingleQuotes, parseString_single hmark, decodeSingle_escapeMarks]
    rfl
  · rw [inDoubleQuotes, parseString_double hmark, decodeDouble_escapeMarks]
    rfl

/-- A text that looks like escapes, an expression in braces and variables behind runs of backslashes. -/
theorem parseString_quoted_lookalikes :
    "b" ∈ binaryMarks ∧
      parseString "b'\\\\x41\\\\\\\\$a \\'\x7b$b\x7d\\' \\\\'" 3 = .ok "\\x41\\\\$a '\x7b$b\x7d' \\" ∧
      parseString "b\"\\\\x41\\\\\\\\\\$a '\x7b\\$b\x7d' \\\\\"" 3 = .ok "\\x41\\\\$a '\x7b$b\x7d' \\" := by
  have h : "b" ∈ binaryMarks := by decide
  exact ⟨h, parseString_quoted "\\x41\\\\$a '\x7b$b\x7d' \\" 3 h⟩

end Reflection
