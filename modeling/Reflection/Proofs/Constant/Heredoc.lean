import Reflection.Proofs.Constant.Quotation

/-!
# Heredocs and nowdocs

The lines of a heredoc stand between an opener and a closing line that is the label alone, and all of
them may be indented like the closing line. The first place where a closing line ends the text is the
right one: a line feed stands behind every earlier place, and the label at the end has none. So the
lines come back without the indentation, also those that are blank, that are indented further, or that
hold the label.

## Main definitions

* `isHeredocLabel`: labels of heredocs.
* `indented`: lines as a heredoc or nowdoc.

## Main statements

* `spanBody?_append`: the body ends before the first closing line.
* `ofLiteral?_of_parts`, `text_indented`: the parts of indented lines, and the lines without indentation.
* `parseString_indented`: indented lines denote the lines.
-/
namespace Reflection

open Reflection.Text

/-- Labels of heredocs: a letter or a low line, and after it letters, digits and low lines. -/
def isHeredocLabel (label : String) : Bool :=
  label.toList.head?.any isHeredocStart && label.toList.all fun c => isHeredocStart c || c.isDigit

/-- Lines as a heredoc, or as a nowdoc where the mark is a single quote: an opener of the label between
marks, the lines behind an indentation, and a closing line of the label behind the same indentation. -/
def indented (mark label indent : String) (lines : List String) : String :=
  "<<<" ++ mark ++ label ++ mark ++ "\n" ++ "\n".intercalate (lines.map (indent ++ ·)) ++ "\n" ++
    indent ++ label

/-- The line with a backslash before each character that is escaped in heredocs. -/
def escapeLine (s : String) : String := String.ofList (escapeMarks doubleMarks s.toList)

/-- What may stand on both sides of the label of an opener. -/
def heredocMarks : List (List Char) := [[], ['\''], ['"']]

/-! ## Lists of lines -/

section

variable {α : Type} {x y : α} {indent : List α} {lines : List (List α)}

/-- The last element of joined lines is that of the last line, of the indentation, or the separator. -/
theorem getLast?_intercalate_ne (hindent : y ∉ indent) (hxy : x ≠ y)
    (hlast : ∀ l, lines.getLast? = some l → l.getLast? ≠ some y) :
    ([x].intercalate (lines.map (indent ++ ·))).getLast? ≠ some y := by
  induction lines with
  | nil => exact nofun
  | cons l rest ih =>
    cases rest with
    | nil =>
      rw [List.map_cons, List.map_nil, List.intercalate_singleton, List.getLast?_append]
      intro h
      rcases Option.or_eq_some_iff.mp h with h | ⟨-, h⟩
      · exact hlast l rfl h
      · exact hindent (List.mem_of_getLast? h)
    | cons l' rest =>
      have hrest := ih fun m hm => hlast m (by rw [List.getLast?_cons_cons, hm])
      rw [List.map_cons, List.map_cons, List.intercalate_cons_cons, List.getLast?_append,
        List.getLast?_append]
      intro h
      rcases Option.or_eq_some_iff.mp h with h | ⟨-, h⟩
      · exact hrest h
      · exact hxy (Option.some.inj h)

theorem intercalate_map_escapeMarks {marks : List Char} (hbreak : '\n' ∉ marks)
    (lines : List (List Char)) :
    ['\n'].intercalate (lines.map (escapeMarks marks)) =
      escapeMarks marks (['\n'].intercalate lines) := by
  have happend (xs ys : List Char) :
      escapeMarks marks (xs ++ ys) = escapeMarks marks xs ++ escapeMarks marks ys :=
    List.flatMap_append
  have hline : escapeMarks marks ['\n'] = ['\n'] := escapeMarks_cons_of_not_mem hbreak
  induction lines with
  | nil => rfl
  | cons l rest ih =>
    cases rest with
    | nil => rw [List.map_cons, List.map_nil, List.intercalate_singleton, List.intercalate_singleton]
    | cons l' rest =>
      rw [List.map_cons, List.map_cons, List.intercalate_cons_cons, List.intercalate_cons_cons,
        happend, happend, hline, ← ih, List.map_cons]

end

theorem mem_of_mem_escapeMarks {marks cs : List Char} {c : Char} (h : c ∈ escapeMarks marks cs) :
    c = '\\' ∨ c ∈ cs := by
  obtain ⟨d, hd, hc⟩ := List.mem_flatMap.mp h
  split at hc
  · rcases List.mem_cons.mp hc with rfl | hc
    · exact .inl rfl
    · exact .inr (List.mem_singleton.mp hc ▸ hd)
  · exact .inr (List.mem_singleton.mp hc ▸ hd)

/-- Escaping keeps the last character of a text. -/
theorem getLast?_escapeMarks (marks cs : List Char) :
    (escapeMarks marks cs).getLast? = cs.getLast? := by
  rcases List.eq_nil_or_concat cs with rfl | ⟨init, c, rfl⟩
  · rfl
  · rw [escapeMarks, List.concat_eq_append, List.flatMap_append, List.flatMap_singleton,
      List.getLast?_append, List.getLast?_concat]
    split <;> rfl

/-! ## The closing line -/

section

variable {label indent body tail : List Char}

theorem dropMark?_append (mark rest : List Char) : dropMark? mark (mark ++ rest) = some rest := by
  have hprefix : mark.isPrefixOf (mark ++ rest) = true :=
    List.isPrefixOf_iff_prefix.mpr (List.prefix_append mark rest)
  rw [dropMark?, if_pos hprefix, List.drop_left]

theorem eq_append_of_dropMark? {mark cs rest : List Char} (h : dropMark? mark cs = some rest) :
    cs = mark ++ rest := by
  unfold dropMark? at h
  split at h
  · rename_i hprefix
    obtain ⟨after, rfl⟩ := List.isPrefixOf_iff_prefix.mp hprefix
    rw [List.drop_left] at h
    rw [Option.some.inj h]
  · cases h

/-- The body of a heredoc ends before the first closing line. -/
theorem spanBody?_append (hclosing : closingIndent? label tail = some indent)
    (hbody : ∀ rest, rest ≠ [] → rest <:+ body → closingIndent? label (rest ++ tail) = none) :
    spanBody? label (body ++ tail) = some (body, indent) := by
  induction body with
  | nil =>
    cases tail with
    | nil => simp [spanBody?, hclosing]
    | cons c rest => simp [spanBody?, hclosing]
  | cons c rest ih =>
    have hhere := hbody (c :: rest) (List.cons_ne_nil c rest) (List.suffix_refl _)
    have hlater := ih fun rest' hne hsuffix => hbody rest' hne (hsuffix.trans (List.suffix_cons c rest))
    rw [List.cons_append] at hhere
    simp only [List.cons_append, spanBody?, hhere, hlater, Option.map_some]

theorem ne_newline_of_isIndent {c : Char} (h : isIndent c = true) : c ≠ '\n' := by
  rintro rfl
  exact absurd h (by decide)

/-- A line end at the start of a text with a line feed in it lies before the line feed, unless the line
feed ends it. -/
theorem exists_dropLineEnd_append {front : List Char} (hne : front ≠ [])
    (hreturn : front.getLast? ≠ some '\r') :
    ∃ rest, dropLineEnd (front ++ '\n' :: tail) = rest ++ '\n' :: tail := by
  unfold dropLineEnd
  split
  · rename_i after heq
    cases front with
    | nil => exact absurd rfl hne
    | cons c rest =>
      simp only [List.cons_append, List.cons.injEq] at heq
      exact ⟨rest, heq.2.symm⟩
  · rename_i after heq
    match front, hne with
    | [c], _ =>
      simp only [List.cons_append, List.cons.injEq] at heq
      exact absurd (by rw [heq.1]; rfl) hreturn
    | c :: d :: rest, _ =>
      simp only [List.cons_append, List.cons.injEq] at heq
      exact ⟨rest, heq.2.2.symm⟩
  · exact ⟨front, rfl⟩

/-- A text with a line feed that does not end it is no closing line, unless a line end with that line feed
begins it. -/
theorem closingIndent?_append_eq_none {front : List Char} (hlabel : '\n' ∉ label) (hne : front ≠ [])
    (hreturn : front.getLast? ≠ some '\r') (htail : tail.getLast?.any (· ≠ '\n') = true) :
    closingIndent? label (front ++ '\n' :: tail) = none := by
  have hdropped : ∃ rest, dropLineEnd (front ++ '\n' :: tail) = rest ++ '\n' :: tail :=
    exists_dropLineEnd_append hne hreturn
  obtain ⟨rest, hrest⟩ := hdropped
  have hsplit := List.takeWhile_append_dropWhile (p := isIndent) (l := rest ++ '\n' :: tail)
  have hblank : '\n' ∉ (rest ++ '\n' :: tail).takeWhile isIndent := fun h =>
    ne_newline_of_isIndent (List.all_eq_true.mp List.all_takeWhile _ h) rfl
  rw [closingIndent?, hrest]
  refine if_neg fun hclosing => ?_
  rcases hclosing with hclosing | hclosing
  · have hmem : '\n' ∈ rest ++ '\n' :: tail := List.mem_append_right rest List.mem_cons_self
    rw [← hsplit, hclosing, List.mem_append] at hmem
    exact hmem.elim hblank hlabel
  · -- The line feed behind the label would end the text.
    have hlast := congrArg List.getLast? hsplit
    rw [hclosing, ← List.append_assoc, List.getLast?_concat, List.getLast?_append] at hlast
    cases htail' : tail.getLast? with
    | none => simp [htail'] at htail
    | some c =>
      have hc : c ≠ '\n' := by simpa [htail'] using htail
      rw [List.getLast?_cons, htail'] at hlast
      exact hc (Option.some.inj hlast).symm

/-- The label behind its indentation closes a heredoc. -/
theorem closingIndent?_closing (hindent : ∀ c ∈ indent, isIndent c = true)
    (hlabel : label.head?.any isIndent = false) :
    closingIndent? label ('\n' :: (indent ++ label)) = some indent := by
  have hhead : label.takeWhile isIndent = [] ∧ label.dropWhile isIndent = label := by
    cases label with
    | nil => exact ⟨rfl, rfl⟩
    | cons c rest =>
      have hc : isIndent c = false := hlabel
      simp [hc]
  have htake : (indent ++ label).takeWhile isIndent = indent := by
    rw [List.takeWhile_append_of_pos hindent, hhead.1, List.append_nil]
  have hdrop : (indent ++ label).dropWhile isIndent = label := by
    rw [List.dropWhile_append_of_pos hindent, hhead.2]
  simp only [closingIndent?, dropLineEnd, htake, hdrop, true_or, if_true]

end

/-! ## Labels -/

/-- What the characters of a label are not. -/
structure LabelBounds (label : List Char) : Prop where
  continues : label.all (fun c => isHeredocStart c || c.isDigit) = true
  begins : label.head?.any isHeredocStart = true
  no_indent : label.head?.any isIndent = false
  no_mark : label.head?.any (fun c => c == '\'' || c == '"') = false
  no_newline : '\n' ∉ label
  last : label.getLast?.any (· ≠ '\n') = true

theorem labelBounds {label : String} (h : isHeredocLabel label = true) : LabelBounds label.toList := by
  obtain ⟨hbegins, hcontinues⟩ := Bool.and_eq_true_iff.mp h
  have hnewline : '\n' ∉ label.toList := fun hmem =>
    absurd (List.all_eq_true.mp hcontinues _ hmem) (by decide)
  obtain ⟨c, hhead, hc⟩ := (Option.any_eq_true _ _).mp hbegins
  refine ⟨hcontinues, hbegins, ?_, ?_, hnewline, ?_⟩
  · rw [hhead, Option.any_some, Bool.eq_false_iff]
    intro hindent
    have hblank : c = ' ' ∨ c = '\t' := by simpa [isIndent] using hindent
    rcases hblank with rfl | rfl <;> exact absurd hc (by decide)
  · rw [hhead, Option.any_some, Bool.eq_false_iff]
    intro hmark
    have hquote : c = '\'' ∨ c = '"' := by simpa using hmark
    rcases hquote with rfl | rfl <;> exact absurd hc (by decide)
  · cases hlast : label.toList.getLast? with
    | none => simp [List.getLast?_eq_none_iff.mp hlast] at hhead
    | some d =>
      have hd : d ≠ '\n' := fun h => hnewline (h ▸ List.mem_of_getLast? hlast)
      simpa using hd

/-! ## Indented lines -/

section

variable {mark label indent body : List Char}

theorem takeWhile_append_cons {p : Char → Bool} {cs rest : List Char} {c : Char}
    (hcs : cs.all p = true) (hc : p c = false) : (cs ++ c :: rest).takeWhile p = cs := by
  rw [List.takeWhile_append_of_pos (List.all_eq_true.mp hcs), List.takeWhile_cons_of_neg (by simp [hc]),
    List.append_nil]

/-- Where the mark of an opener ends: before the first character of the label. -/
theorem head_opener (hmark : mark ∈ heredocMarks) (hlabel : LabelBounds label) (rest : List Char) :
    (mark ++ (label ++ rest)).dropWhile isIndent = mark ++ (label ++ rest) ∧
      ((mark ++ (label ++ rest)).takeWhile fun c => c == '\'' || c == '"').take 1 = mark := by
  obtain ⟨c, hhead, -⟩ := (Option.any_eq_true _ _).mp hlabel.begins
  obtain ⟨after, rfl⟩ : ∃ after, label = c :: after := List.head?_eq_some_iff.mp hhead
  have hindent : isIndent c = false := hlabel.no_indent
  have hquote : (c == '\'' || c == '"') = false := hlabel.no_mark
  have hmark' : mark = [] ∨ mark = ['\''] ∨ mark = ['"'] := by simpa [heredocMarks] using hmark
  rcases hmark' with rfl | rfl | rfl
  · simp [hindent, hquote]
  · exact ⟨rfl, rfl⟩
  · exact ⟨rfl, rfl⟩

/-- The label of an opener ends before the mark behind it, and without a mark before the line feed. -/
theorem takeWhile_label (hmark : mark ∈ heredocMarks) (hlabel : LabelBounds label)
    (rest : List Char) :
    ((label ++ (mark ++ '\n' :: rest)).takeWhile fun c => isHeredocStart c || c.isDigit) = label := by
  have hmark' : mark = [] ∨ mark = ['\''] ∨ mark = ['"'] := by simpa [heredocMarks] using hmark
  rcases hmark' with rfl | rfl | rfl <;> exact takeWhile_append_cons hlabel.continues rfl

/-- The parts of a heredoc: all between the opener and the closing line is its body, unless a carriage
return stands before the line feed of the closing line. -/
theorem ofLiteral?_of_parts (hmark : mark ∈ heredocMarks) (hlabel : LabelBounds label)
    (hindent : ∀ c ∈ indent, isIndent c = true) (hreturn : body.getLast? ≠ some '\r') :
    Heredoc.ofLiteral? ("<<<".toList ++
        (mark ++ (label ++ (mark ++ '\n' :: (body ++ '\n' :: (indent ++ label)))))) =
      some ⟨mark == ['\''], body, indent⟩ := by
  have hbody : spanBody? label (body ++ '\n' :: (indent ++ label)) = some (body, indent) := by
    refine spanBody?_append (closingIndent?_closing hindent hlabel.no_indent) fun rest hne hsuffix => ?_
    obtain ⟨front, rfl⟩ := hsuffix
    have hlast : (indent ++ label).getLast?.any (· ≠ '\n') = true := by
      obtain ⟨d, hd, hne⟩ := (Option.any_eq_true _ _).mp hlabel.last
      rw [List.getLast?_append, hd]
      exact hne
    have hrest : rest.getLast? ≠ some '\r' := fun h =>
      hreturn (by rw [List.getLast?_append, h]; rfl)
    exact closingIndent?_append_eq_none hlabel.no_newline hne hrest hlast
  obtain ⟨hskip, htake⟩ := head_opener hmark hlabel (mark ++ '\n' :: (body ++ '\n' :: (indent ++ label)))
  simp only [Heredoc.ofLiteral?, dropMark?_append, Option.bind_eq_bind, Option.bind_some, hskip, htake,
    List.drop_left, takeWhile_label hmark hlabel, hlabel.begins, Bool.not_true, Bool.false_eq_true,
    if_false, dropLineEnd, List.length_cons, hbody]
  exact if_neg (Nat.ne_of_lt (Nat.lt_succ_self _))

/-- Lines lose the indentation that they share with the closing line, and nothing else. -/
theorem text_indented (literal : Bool) {lines : List (List Char)} (hlines : lines ≠ [])
    (hindent : ∀ c ∈ indent, isIndent c = true) (hbreak : ∀ l ∈ lines, '\n' ∉ l) :
    Heredoc.text ⟨literal, ['\n'].intercalate (lines.map (indent ++ ·)), indent⟩ =
      ['\n'].intercalate lines := by
  have hsplit : (['\n'].intercalate (lines.map (indent ++ ·))).splitOn '\n' =
      lines.map (indent ++ ·) := by
    refine List.splitOn_intercalate '\n' (fun l hl => ?_) (by simpa using hlines)
    obtain ⟨l, hmem, rfl⟩ := List.mem_map.mp hl
    rw [List.mem_append]
    exact fun h => h.elim (fun h => ne_newline_of_isIndent (hindent _ h) rfl) (hbreak l hmem)
  have houtdent : outdent indent ∘ (indent ++ ·) = id := by
    funext l
    simp only [Function.comp_apply, outdent, dropMark?_append, id]
  unfold Heredoc.text
  split
  · rename_i hempty
    have hnil : indent = [] := List.isEmpty_iff.mp hempty
    simp only [hnil, List.nil_append, List.map_id']
  · rw [hsplit, List.map_map, houtdent, List.map_id]

end

/-- A text with the parts of a heredoc or nowdoc is one: no quote begins it. -/
theorem parseString_of_ofLiteral? {text : String} {h : Heredoc}
    (hparts : Heredoc.ofLiteral? text.toList = some h) (line : Int) :
    parseString text line = if h.literal then .ok (.ofChars h.text) else decodeDouble line h.text := by
  obtain ⟨rest, htext⟩ : ∃ rest, text.toList = '<' :: '<' :: '<' :: rest := by
    cases hdrop : dropMark? "<<<".toList text.toList with
    | none =>
      rw [Heredoc.ofLiteral?, hdrop] at hparts
      cases hparts
    | some rest => exact ⟨rest, eq_append_of_dropMark? hdrop⟩
  have hplain : dropBinaryMark text.toList = text.toList := by
    rw [htext]
    rfl
  have hunquoted (q : Char) (hq : '<' ≠ q) : between? q text.toList = none := by
    rw [htext]
    exact between?_of_ne hq _
  simp only [parseString, hplain, hunquoted '\'' (by decide), hunquoted '"' (by decide), hparts]

/-- The text of indented lines, from the lines without indentation. -/
theorem parseString_indented_eq {mark label indent : String} {lines : List String}
    (hmark : mark.toList ∈ heredocMarks) (hlabel : isHeredocLabel label = true)
    (hindent : ∀ c ∈ indent.toList, isIndent c = true) (hlines : lines ≠ [])
    (hbreak : ∀ l ∈ lines, '\n' ∉ l.toList)
    (hreturn : ∀ l, lines.getLast? = some l → l.toList.getLast? ≠ some '\r') (line : Int) :
    parseString (indented mark label indent lines) line =
      if mark.toList == ['\''] then .ok (.ofString ("\n".intercalate lines))
      else decodeDouble line ("\n".intercalate lines).toList := by
  have htext : (indented mark label indent lines).toList = "<<<".toList ++
      (mark.toList ++ (label.toList ++ (mark.toList ++ '\n' ::
        (['\n'].intercalate ((lines.map String.toList).map (indent.toList ++ ·)) ++
          '\n' :: (indent.toList ++ label.toList))))) := by
    simp [indented, String.toList_append, String.toList_intercalate, Function.comp_def]
  have hjoined : ("\n".intercalate lines).toList = ['\n'].intercalate (lines.map String.toList) :=
    String.toList_intercalate
  have hbody : (['\n'].intercalate ((lines.map String.toList).map (indent.toList ++ ·))).getLast? ≠
      some '\r' := by
    refine getLast?_intercalate_ne (fun h => absurd (hindent _ h) (by decide)) (by decide) ?_
    intro l hl
    rw [List.getLast?_map] at hl
    obtain ⟨s, hs, rfl⟩ := Option.map_eq_some_iff.mp hl
    exact hreturn s hs
  have hlines' : lines.map String.toList ≠ [] := by simpa using hlines
  have hbreak' : ∀ l ∈ lines.map String.toList, '\n' ∉ l := by simpa using hbreak
  have hparts := ofLiteral?_of_parts hmark (labelBounds hlabel) hindent hbody
  rw [← htext] at hparts
  rw [parseString_of_ofLiteral? hparts, text_indented _ hlines' hindent hbreak', CodeText.ofString,
    hjoined]

/-- The lines of a nowdoc come back without the indentation that they share with the closing line, and
those of a heredoc do when they were escaped: whatever the lines are, as long as no carriage return
stands before the line feed of the closing line. -/
theorem parseString_indented {label indent : String} {lines : List String}
    (hlabel : isHeredocLabel label = true) (hindent : ∀ c ∈ indent.toList, isIndent c = true)
    (hlines : lines ≠ []) (hbreak : ∀ l ∈ lines, '\n' ∉ l.toList)
    (hreturn : ∀ l, lines.getLast? = some l → l.toList.getLast? ≠ some '\r') (line : Int) :
    parseString (indented "'" label indent lines) line = .ok ("\n".intercalate lines) ∧
      parseString (indented "" label indent (lines.map escapeLine)) line =
        .ok ("\n".intercalate lines) := by
  constructor
  · exact parseString_indented_eq (by decide) hlabel hindent hlines hbreak hreturn line
  · have hbreak' : ∀ l ∈ lines.map escapeLine, '\n' ∉ l.toList := by
      intro l hl
      obtain ⟨s, hs, rfl⟩ := List.mem_map.mp hl
      rw [escapeLine, String.toList_ofList]
      exact fun h => (mem_of_mem_escapeMarks h).elim (by decide) (hbreak s hs)
    have hreturn' : ∀ l, (lines.map escapeLine).getLast? = some l → l.toList.getLast? ≠ some '\r' := by
      intro l hl
      rw [List.getLast?_map] at hl
      obtain ⟨s, hs, rfl⟩ := Option.map_eq_some_iff.mp hl
      rw [escapeLine, String.toList_ofList, getLast?_escapeMarks]
      exact hreturn s hs
    have hescaped : ("\n".intercalate (lines.map escapeLine)).toList =
        escapeMarks doubleMarks ("\n".intercalate lines).toList := by
      rw [String.toList_intercalate, String.toList_intercalate, List.map_map]
      have hmap : String.toList ∘ escapeLine = escapeMarks doubleMarks ∘ String.toList := by
        funext s
        exact String.toList_ofList
      rw [hmap, ← List.map_map]
      exact intercalate_map_escapeMarks (by decide) _
    rw [parseString_indented_eq (by decide) hlabel hindent (by simpa using hlines) hbreak' hreturn' line,
      hescaped, decodeDouble_escapeMarks]
    rfl

/-- Lines that are empty, blank, indented further, end in a carriage return, or hold the label or what
looks like a variable. -/
theorem parseString_indented_lookalikes :
    let lines := ["", " \t\t", "   E_1", "E_1", "a\r", "$a\\", ""]
    (isHeredocLabel "E_1" = true ∧ (∀ c ∈ " \t".toList, isIndent c = true) ∧ lines ≠ [] ∧
      (∀ l ∈ lines, '\n' ∉ l.toList) ∧
        ∀ l, lines.getLast? = some l → l.toList.getLast? ≠ some '\r') ∧
      parseString "<<<'E_1'\n \t\n \t \t\t\n \t   E_1\n \tE_1\n \ta\r\n \t$a\\\n \t\n \tE_1" 1 =
        .ok "\n \t\t\n   E_1\nE_1\na\r\n$a\\\n" ∧
      parseString "<<<E_1\n \t\n \t \t\t\n \t   E_1\n \tE_1\n \ta\r\n \t\\$a\\\\\n \t\n \tE_1" 1 =
        .ok "\n \t\t\n   E_1\nE_1\na\r\n$a\\\n" := by
  intro lines
  have hlabel : isHeredocLabel "E_1" = true := by decide
  have hindent : ∀ c ∈ " \t".toList, isIndent c = true := List.all_eq_true.mp (by decide)
  have hlines : lines ≠ [] := by decide
  have hbreak : ∀ l ∈ lines, '\n' ∉ l.toList := by decide
  have hreturn : ∀ l, lines.getLast? = some l → l.toList.getLast? ≠ some '\r' := by
    intro l hl
    cases hl
    decide
  exact ⟨⟨hlabel, hindent, hlines, hbreak, hreturn⟩,
    parseString_indented hlabel hindent hlines hbreak hreturn 1⟩

end Reflection
