import Reflection.Proofs.Constant.Heredoc

/-!
# Variables in texts

A text between double quotes or in a heredoc is read from left to right: a backslash and the character
after it form one unit, so of two backslashes neither escapes what follows. A dollar sign or a brace that
is not part of such a unit may begin a variable. Literals are not read in this way: the character before
the sign decides, and only a letter of ASCII begins a name. So a literal that is refused does mention a
variable, but one that mentions a variable is refused only where the variable is in sight: behind no
escaped backslash, and with a name that begins in ASCII.

## Main definitions

* `Whole`, `BeginsVariable`, `MentionsVariable`: variables of a text, read from left to right.
* `MentionsInSight`: a variable that a look at the character before it tells.
* `Interpolated`: literals that may mention variables, with their text as written.
* `Outdents`: the text without some of the blanks at the start of its lines.

## Main statements

* `hasInterpolation_iff`: what is looked for in a text.
* `Outdents.hasInterpolation_eq`: indentation does not matter to it.
* `parseString_interpolation_iff`: literals that are refused because of a variable.
-/
namespace Reflection

open Reflection.Text

/-- A text that ends where a unit ends: each backslash has a character after it that belongs to it. -/
inductive Whole : List Char → Prop
  | nil : Whole []
  | escape (c : Char) {rest : List Char} (h : Whole rest) : Whole ('\\' :: c :: rest)
  | plain {c : Char} {rest : List Char} (hc : c ≠ '\\') (h : Whole rest) : Whole (c :: rest)

/-- Characters that begin the name of a variable. -/
def startsName (c : Char) : Bool := c.isAlpha || c == '_' || 0x80 ≤ c.toNat

/-- A variable, or an expression in braces, begins a text. -/
inductive BeginsVariable : List Char → Prop
  | name {c : Char} (hc : startsName c = true) (rest : List Char) : BeginsVariable ('$' :: c :: rest)
  | bracedName (rest : List Char) : BeginsVariable ('$' :: '\x7b' :: rest)
  | expression (rest : List Char) : BeginsVariable ('\x7b' :: '$' :: rest)

/-- A text, read from left to right, mentions a variable. -/
def MentionsVariable (cs : List Char) : Prop :=
  ∃ before after, cs = before ++ after ∧ Whole before ∧ BeginsVariable after

/-- A text, read from left to right, mentions a variable that stands behind no backslash, escaped or not,
and whose name begins with no character beyond ASCII. -/
def MentionsInSight (cs : List Char) : Prop :=
  ∃ before after, cs = before ++ after ∧ Whole before ∧ BeginsVariable after ∧
    before.getLast? ≠ some '\\' ∧ ∀ c, after[1]? = some c → c.toNat < 0x80

/-- A literal that may mention variables, and the characters of its text as they are written: between
double quotes, or the body of a heredoc with its indentation. -/
inductive Interpolated : String → List Char → Prop
  | quoted {mark : String} (hmark : mark ∈ binaryMarks) (body : List Char) :
    Interpolated (mark ++ ("\"" ++ String.ofList body ++ "\"")) body
  | heredoc {text : String} {h : Heredoc} (hparts : Heredoc.ofLiteral? text.toList = some h)
    (hliteral : h.literal = false) : Interpolated text h.body

theorem MentionsInSight.mentionsVariable {cs : List Char} (h : MentionsInSight cs) :
    MentionsVariable cs := by
  obtain ⟨before, after, heq, hwhole, hbegins, -, -⟩ := h
  exact ⟨before, after, heq, hwhole, hbegins⟩

/-! ## Units -/

/-- A text that does not end where a unit ends has a backslash for its last character. -/
theorem whole_or_getLast? : ∀ cs : List Char, Whole cs ∨ cs.getLast? = some '\\'
  | [] => .inl .nil
  | [c] => if h : c = '\\' then .inr (h ▸ rfl) else .inl (.plain h .nil)
  | c :: d :: rest => by
    by_cases h : c = '\\'
    · subst h
      refine (whole_or_getLast? rest).imp (.escape d) fun hlast => ?_
      have hne : rest ≠ [] := fun hnil => by simp [hnil] at hlast
      rw [List.getLast?_cons_cons, List.getLast?_cons_of_ne_nil hne, hlast]
    · refine (whole_or_getLast? (d :: rest)).imp (.plain h) fun hlast => ?_
      rw [List.getLast?_cons_cons, hlast]

theorem whole_of_getLast?_ne {cs : List Char} (h : cs.getLast? ≠ some '\\') : Whole cs :=
  (whole_or_getLast? cs).resolve_right h

/-! ## What is looked for -/

theorem toNat_lt_of_isAlpha {c : Char} (h : c.isAlpha = true) : c.toNat < 0x80 := by
  have hcase : c.isUpper = true ∨ c.isLower = true := Bool.or_eq_true_iff.mp h
  rcases hcase with hupper | hlower
  · have hle : c.val ≤ 'Z'.val := (of_decide_eq_true hupper).2
    exact Nat.lt_of_le_of_lt (UInt32.le_iff_toNat_le.mp hle) (by decide)
  · have hle : c.val ≤ 'z'.val := of_decide_eq_true (Bool.and_eq_true_iff.mp hlower).2
    exact Nat.lt_of_le_of_lt (UInt32.le_iff_toNat_le.mp hle) (by decide)

/-- Two characters are looked for that begin a variable in ASCII. -/
theorem beginsVariable_iff {c d : Char} (rest : List Char) :
    ((c == '$' && beginsVariable d) || (c == '\x7b' && d == '$')) = true ↔
      BeginsVariable (c :: d :: rest) ∧ d.toNat < 0x80 := by
  constructor
  · intro h
    rcases Bool.or_eq_true_iff.mp h with h | h
    · obtain ⟨hc, hd⟩ := Bool.and_eq_true_iff.mp h
      obtain rfl := eq_of_beq hc
      rcases Bool.or_eq_true_iff.mp hd with hd | hd
      · rcases Bool.or_eq_true_iff.mp hd with hd | hd
        · exact ⟨.name (by simp [startsName, hd]) rest, toNat_lt_of_isAlpha hd⟩
        · obtain rfl := eq_of_beq hd
          exact ⟨.name rfl rest, by decide⟩
      · obtain rfl := eq_of_beq hd
        exact ⟨.bracedName rest, by decide⟩
    · obtain ⟨hc, hd⟩ := Bool.and_eq_true_iff.mp h
      obtain rfl := eq_of_beq hc
      obtain rfl := eq_of_beq hd
      exact ⟨.expression rest, by decide⟩
  · rintro ⟨h, hascii⟩
    cases h with
    | name hd =>
      have hstart : beginsVariable d = true := by
        have hbound : ¬ 0x80 ≤ d.toNat := Nat.not_le.mpr hascii
        simp only [startsName, hbound, decide_false, Bool.or_false] at hd
        simp [beginsVariable, hd]
      simp [hstart]
    | bracedName => rfl
    | expression => rfl

/-- A variable is found just where it is in sight. -/
theorem hasInterpolation_iff (previous : Option Char) (cs : List Char) :
    hasInterpolation previous cs = true ↔
      ∃ before after, cs = before ++ after ∧ before.getLast?.or previous ≠ some '\\' ∧
        BeginsVariable after ∧ ∀ c, after[1]? = some c → c.toNat < 0x80 := by
  fun_induction hasInterpolation previous cs with
  | case1 previous c d rest ih =>
    rw [Bool.or_eq_true, Bool.and_eq_true, beginsVariable_iff rest, ih]
    constructor
    · rintro (⟨hprevious, hbegins, hascii⟩ | ⟨before, after, heq, hlast, hbegins⟩)
      · exact ⟨[], c :: d :: rest, rfl, by simpa using hprevious, hbegins,
          fun e he => Option.some.inj he ▸ hascii⟩
      · refine ⟨c :: before, after, by rw [heq, List.cons_append], ?_, hbegins⟩
        rw [List.getLast?_cons]
        cases hbefore : before.getLast? <;> simpa [hbefore] using hlast
    · rintro ⟨before, after, heq, hlast, hbegins, hascii⟩
      cases before with
      | nil =>
        rw [List.nil_append] at heq
        subst heq
        exact .inl ⟨by simpa using hlast, hbegins, hascii d rfl⟩
      | cons c' before =>
        obtain ⟨rfl, htail⟩ := List.cons.inj heq
        refine .inr ⟨before, after, htail, ?_, hbegins, hascii⟩
        rw [List.getLast?_cons] at hlast
        cases hbefore : before.getLast? <;> simpa [hbefore] using hlast
  | case2 previous cs hshort =>
    -- A variable takes two characters.
    refine iff_of_false Bool.false_ne_true ?_
    rintro ⟨before, after, rfl, -, hbegins, -⟩
    cases before with
    | nil => cases hbegins <;> exact hshort _ _ _ rfl
    | cons c before =>
      cases before with
      | nil => cases hbegins <;> exact hshort _ _ _ rfl
      | cons d before => exact hshort _ _ _ rfl

/-- Behind no character, what is found is what a reading from left to right has in sight. -/
theorem hasInterpolation_none_iff (cs : List Char) :
    hasInterpolation none cs = true ↔ MentionsInSight cs := by
  rw [hasInterpolation_iff]
  refine exists_congr fun before => exists_congr fun after => and_congr_right fun _ => ?_
  rw [Option.or_none]
  constructor
  · rintro ⟨hlast, hbegins, hascii⟩
    exact ⟨whole_of_getLast?_ne hlast, hbegins, hlast, hascii⟩
  · rintro ⟨-, hbegins, hlast, hascii⟩
    exact ⟨hlast, hbegins, hascii⟩

/-! ## Indentation -/

/-- A text without some of the blanks at the start of its lines. The flag tells whether the text begins
at the start of a line. -/
inductive Outdents : Bool → List Char → List Char → Prop
  | nil (start : Bool) : Outdents start [] []
  | blank {c : Char} {cs ds : List Char} (hc : isIndent c = true) (h : Outdents true cs ds) :
    Outdents true (c :: cs) ds
  | keep {start : Bool} {c : Char} {cs ds : List Char} (h : Outdents (c == '\n') cs ds) :
    Outdents start (c :: cs) (c :: ds)

namespace Outdents

variable {start : Bool} {cs ds : List Char}

theorem refl (start : Bool) : ∀ cs, Outdents start cs cs
  | [] => .nil start
  | c :: rest => .keep (refl (c == '\n') rest)

theorem blanks_append {blanks : List Char} (hblanks : ∀ c ∈ blanks, isIndent c = true)
    (h : Outdents true cs ds) : Outdents true (blanks ++ cs) ds := by
  induction blanks with
  | nil => exact h
  | cons c rest ih =>
    obtain ⟨hc, hrest⟩ := List.forall_mem_cons.mp hblanks
    exact .blank hc (ih hrest)

theorem line_append (line : List Char) (h : Outdents true cs ds) :
    Outdents start (line ++ '\n' :: cs) (line ++ '\n' :: ds) := by
  induction line generalizing start with
  | nil => exact .keep h
  | cons c rest ih => exact .keep ih

/-- Joined lines, each without the blanks at its start that it loses. -/
theorem intercalate {outdent : List Char → List Char}
    (hline : ∀ line, ∃ blanks, (∀ c ∈ blanks, isIndent c = true) ∧ line = blanks ++ outdent line)
    (lines : List (List Char)) :
    Outdents true (['\n'].intercalate lines) (['\n'].intercalate (lines.map outdent)) := by
  induction lines with
  | nil => exact .nil true
  | cons line rest ih =>
    obtain ⟨blanks, hblanks, heq⟩ := hline line
    cases rest with
    | nil =>
      have hline := blanks_append hblanks (refl true (outdent line))
      rw [← heq] at hline
      rwa [List.map_cons, List.map_nil, List.intercalate_singleton, List.intercalate_singleton]
    | cons next rest =>
      have hline : Outdents true _ _ := line_append (outdent line) ih
      have hjoined := blanks_append hblanks hline
      rw [← List.append_assoc, ← heq] at hjoined
      rw [List.map_cons, List.map_cons, List.intercalate_cons_cons, List.intercalate_cons_cons]
      simpa using hjoined

/-- Within a line the first characters are the same. -/
theorem head?_eq (h : Outdents false cs ds) : cs.head? = ds.head? := by
  cases h <;> rfl

theorem hasInterpolation_cons (previous : Option Char) (c : Char) (rest : List Char) :
    hasInterpolation previous (c :: rest) =
      ((previous != some '\\' && rest.head?.any fun d =>
          (c == '$' && beginsVariable d) || (c == '\x7b' && d == '$')) ||
        hasInterpolation (some c) rest) := by
  cases rest with
  | nil => simp [hasInterpolation]
  | cons d rest => rfl

/-- A variable in a text is one in the text without indentation: a blank neither begins a variable nor
escapes one, and what stands together within a line still does. -/
theorem hasInterpolation_eq (h : Outdents start cs ds) {p q : Option Char}
    (hstart : start = true → p ≠ some '\\' ∧ q ≠ some '\\') (hsame : start = false → p = q) :
    hasInterpolation p cs = hasInterpolation q ds := by
  induction h generalizing p q with
  | nil => rfl
  | @blank c cs ds hc h ih =>
    have hblank : c = ' ' ∨ c = '\t' := by simpa [isIndent] using hc
    have hnone : hasInterpolation p (c :: cs) = hasInterpolation (some c) cs := by
      rw [hasInterpolation_cons]
      rcases hblank with rfl | rfl <;> simp
    have hslash : some c ≠ some '\\' := by
      rcases hblank with rfl | rfl <;> decide
    rw [hnone]
    exact ih (fun _ => ⟨hslash, (hstart rfl).2⟩) fun h => absurd h (by decide)
  | @keep start c cs ds h ih =>
    have hescape : (p != some '\\') = (q != some '\\') := by
      cases start with
      | false => rw [hsame rfl]
      | true => rw [bne_iff_ne.mpr (hstart rfl).1, bne_iff_ne.mpr (hstart rfl).2]
    rw [hasInterpolation_cons, hasInterpolation_cons, hescape]
    congr 1
    · by_cases hc : c = '\n'
      · -- A line feed begins no variable.
        subst hc
        cases cs.head? <;> cases ds.head? <;> rfl
      · rw [beq_false_of_ne hc] at h
        rw [h.head?_eq]
    · refine ih (fun hc => ?_) fun _ => rfl
      obtain rfl := eq_of_beq hc
      decide

end Outdents

/-! ## Heredocs -/

theorem isIndent_of_closingIndent? {label cs indent : List Char}
    (h : closingIndent? label cs = some indent) : ∀ c ∈ indent, isIndent c = true := by
  unfold closingIndent? at h
  dsimp only at h
  split at h
  · cases h
    exact List.all_eq_true.mp List.all_takeWhile
  · cases h

theorem isIndent_of_spanBody? {label cs body indent : List Char}
    (h : spanBody? label cs = some (body, indent)) : ∀ c ∈ indent, isIndent c = true := by
  induction cs generalizing body with
  | nil =>
    obtain ⟨i, hi, heq⟩ := Option.map_eq_some_iff.mp h
    cases heq
    exact isIndent_of_closingIndent? hi
  | cons c rest ih =>
    unfold spanBody? at h
    split at h
    · rename_i i hi
      cases h
      exact isIndent_of_closingIndent? hi
    · obtain ⟨⟨body', i⟩, hrest, heq⟩ := Option.map_eq_some_iff.mp h
      cases heq
      exact ih hrest

/-- A heredoc is indented by blanks. -/
theorem isIndent_of_ofLiteral? {cs : List Char} {h : Heredoc} (hparts : Heredoc.ofLiteral? cs = some h) :
    ∀ c ∈ h.indent, isIndent c = true := by
  unfold Heredoc.ofLiteral? at hparts
  obtain ⟨opened, -, hparts⟩ := Option.bind_eq_some_iff.mp hparts
  obtain ⟨rest, -, hparts⟩ := Option.bind_eq_some_iff.mp hparts
  dsimp only at hparts
  split at hparts
  · cases hparts
  · split at hparts
    · cases hparts
    · obtain ⟨⟨body, indent⟩, hspan, hparts⟩ := Option.bind_eq_some_iff.mp hparts
      cases hparts
      exact isIndent_of_spanBody? hspan

/-- A line without indentation is the line without some of the blanks at its start. -/
theorem exists_blanks_outdent {indent : List Char} (hindent : ∀ c ∈ indent, isIndent c = true)
    (line : List Char) :
    ∃ blanks, (∀ c ∈ blanks, isIndent c = true) ∧ line = blanks ++ outdent indent line := by
  unfold outdent
  split
  · rename_i rest hdrop
    exact ⟨indent, hindent, eq_append_of_dropMark? hdrop⟩
  · exact ⟨line.takeWhile isIndent, List.all_eq_true.mp List.all_takeWhile,
      List.takeWhile_append_dropWhile.symm⟩

theorem outdents_text {h : Heredoc} (hindent : ∀ c ∈ h.indent, isIndent c = true) :
    Outdents true h.body h.text := by
  unfold Heredoc.text
  split
  · exact .refl true h.body
  · have hlines := Outdents.intercalate (exists_blanks_outdent hindent) (h.body.splitOn '\n')
    rwa [List.intercalate_splitOn] at hlines

/-! ## Literals -/

/-- Escapes are never refused. -/
theorem decodeEscapes_ne_unsupported (cs : List Char) (cause : Unsupported) (line : Int) :
    decodeEscapes cs ≠ .error (.unsupported cause line) := by
  have hpoint (code : Nat) : codePointOf code ≠ .error (.unsupported cause line) := by
    unfold codePointOf
    split
    · exact nofun
    · split <;> exact nofun
  fun_induction decodeEscapes cs with
  | case1 => exact nofun
  | case2 c rest code used hescape ih =>
    intro h
    cases hcode : codePointOf code with
    | error fault =>
      rw [hcode] at h
      cases h
      exact hpoint code hcode
    | ok e =>
      cases htail : decodeEscapes (rest.drop used) with
      | error fault =>
        rw [hcode, htail] at h
        cases h
        exact ih htail
      | ok tail =>
        rw [hcode, htail] at h
        cases h
  | case3 c rest hescape ih =>
    intro h
    cases htail : decodeEscapes rest with
    | error fault =>
      rw [htail] at h
      cases h
      exact ih htail
    | ok tail =>
      rw [htail] at h
      cases h

/-- A text between double quotes is refused just where a variable is in sight, and for that. -/
theorem decodeDouble_eq_unsupported_iff {line line' : Int} {cs : List Char} {cause : Unsupported} :
    decodeDouble line cs = .error (.unsupported cause line') ↔
      hasInterpolation none cs = true ∧ cause = .interpolation ∧ line' = line := by
  unfold decodeDouble
  split
  · rename_i hfound
    constructor
    · intro h
      cases h
      exact ⟨hfound, rfl, rfl⟩
    · rintro ⟨-, rfl, rfl⟩
      rfl
  · rename_i hfound
    refine iff_of_false (fun h => ?_) fun h => hfound h.1
    cases hdecoded : decodeEscapes cs with
    | error fault =>
      rw [hdecoded] at h
      cases h
      exact decodeEscapes_ne_unsupported cs cause line' hdecoded
    | ok points =>
      rw [hdecoded] at h
      cases h

/-- The text of a literal is decoded, and a variable in sight is one in sight as the text is written. -/
theorem Interpolated.exists_decodeDouble {text : String} {body : List Char} (h : Interpolated text body)
    (line : Int) : ∃ cs, parseString text line = decodeDouble line cs ∧
      (hasInterpolation none cs = true ↔ MentionsInSight body) := by
  cases h with
  | quoted hmark => exact ⟨body, parseString_double hmark body line, hasInterpolation_none_iff body⟩
  | @heredoc _ h hparts hliteral =>
    refine ⟨h.text, ?_, ?_⟩
    · rw [parseString_of_ofLiteral? hparts, hliteral]
      rfl
    · have hindent := isIndent_of_ofLiteral? hparts
      rw [← hasInterpolation_none_iff,
        (outdents_text hindent).hasInterpolation_eq (p := none) (q := none) (by decide) nofun]

/-- A literal between double quotes or in a heredoc is refused just where it mentions a variable in sight,
and it is refused because of a variable that it mentions. One that mentions variables behind escaped
backslashes only, or by names that begin beyond ASCII, is not refused. -/
theorem parseString_interpolation_iff {text : String} {body : List Char} (h : Interpolated text body)
    (line : Int) :
    ((∃ cause line', parseString text line = .error (.unsupported cause line')) ↔
        MentionsInSight body) ∧
      ∀ cause line', parseString text line = .error (.unsupported cause line') →
        cause = .interpolation ∧ line' = line ∧ MentionsVariable body := by
  obtain ⟨cs, hparse, hsight⟩ := h.exists_decodeDouble line
  rw [hparse, ← hsight]
  refine ⟨⟨?_, fun hfound => ?_⟩, fun cause line' hrefused => ?_⟩
  · rintro ⟨cause, line', hrefused⟩
    exact (decodeDouble_eq_unsupported_iff.mp hrefused).1
  · exact ⟨.interpolation, line, decodeDouble_eq_unsupported_iff.mpr ⟨hfound, rfl, rfl⟩⟩
  · obtain ⟨hfound, hcause, hline⟩ := decodeDouble_eq_unsupported_iff.mp hrefused
    exact ⟨hcause, hline, (hsight.mp hfound).mentionsVariable⟩

/-- Behind an escaped backslash a variable is not noticed, and the literal is not refused. -/
theorem parseString_interpolation_iff_escapedBackslash :
    let body := ['\\', '\\', '$', 'x']
    Interpolated "\"\\\\$x\"" body ∧ MentionsVariable body ∧
      ¬ ∃ cause line', parseString "\"\\\\$x\"" 1 = .error (.unsupported cause line') := by
  intro body
  have h : Interpolated "\"\\\\$x\"" body :=
    .quoted (by decide : "" ∈ binaryMarks) body
  have hmentions : MentionsVariable body :=
    ⟨['\\', '\\'], ['$', 'x'], rfl, .escape '\\' .nil, .name rfl []⟩
  have hsight : ¬ MentionsInSight body := by
    rw [← hasInterpolation_none_iff]
    decide
  exact ⟨h, hmentions, fun hrefused => hsight ((parseString_interpolation_iff h 1).1.mp hrefused)⟩

end Reflection
