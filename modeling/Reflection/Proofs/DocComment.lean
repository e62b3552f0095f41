import Reflection.DocComment
import Reflection.Proofs.Text.Line

/-!
# Comments that are written and read again

A comment is written with a mark before each logical line and an empty line between two of them. A
logical line comes back from there when it is not empty, has nothing to trim, stays on its line and
does not end with the mark that closes a comment. The logical lines of a text are like this, unless
the text closes the comment more than once: the first of two closing marks at the end of a line
stays behind as content.

## Main definitions

* `closingMark`, `occurrences`: the mark that closes a comment, and how often it stands in a text.
* `DocComment.Writable`: logical lines that come back.

## Main statements

* `DocComment.lineText?_written`: what is read from a line that is written with the mark before it.
* `DocComment.ofText_render`: writable lines come back.
* `DocComment.writable_ofText`: logical lines of a text are writable.
* `DocComment.ofText_render_ofText`: writing what was read, and reading it, changes nothing.
-/
namespace Reflection

open Reflection.Text

/-- The mark that closes a comment. -/
def closingMark : List Char := ['*', '/']

/-- How often a pattern stands in a text. -/
def occurrences (pattern cs : List Char) : Nat := cs.tails.countP pattern.isPrefixOf

section

variable {pattern cs ds : List Char}

theorem occurrences_cons (c : Char) :
    occurrences pattern (c :: cs) =
      occurrences pattern cs + if pattern <+: c :: cs then 1 else 0 := by
  simp only [occurrences, List.tails_cons, List.countP_cons, List.isPrefixOf_iff_prefix]

theorem occurrences_le_of_isSuffix (h : ds <:+ cs) :
    occurrences pattern ds ≤ occurrences pattern cs := by
  obtain ⟨front, rfl⟩ := h
  induction front with
  | nil => exact Nat.le_refl _
  | cons c front ih =>
    rw [List.cons_append, occurrences_cons]
    exact Nat.le_add_right_of_le ih

theorem occurrences_le_of_isPrefix (h : ds <+: cs) :
    occurrences pattern ds ≤ occurrences pattern cs := by
  induction ds generalizing cs with
  | nil => exact occurrences_le_of_isSuffix (List.nil_suffix)
  | cons c ds ih =>
    obtain ⟨rest, rfl⟩ := h
    have hrest : occurrences pattern ds ≤ occurrences pattern (ds ++ rest) :=
      ih (List.prefix_append ds rest)
    rw [occurrences_cons, List.cons_append, occurrences_cons]
    by_cases hhere : pattern <+: c :: ds
    · have hthere : pattern <+: c :: (ds ++ rest) :=
        hhere.trans (List.prefix_append (c :: ds) rest)
      rw [if_pos hhere, if_pos hthere]
      exact Nat.succ_le_succ hrest
    · rw [if_neg hhere]
      exact Nat.le_add_right_of_le hrest

/-- A part of a text holds a pattern no more often than the text. -/
theorem occurrences_le_of_isInfix (h : ds <:+: cs) :
    occurrences pattern ds ≤ occurrences pattern cs := by
  obtain ⟨middle, hmiddle, hsuffix⟩ := List.infix_iff_prefix_suffix.mp h
  exact (occurrences_le_of_isPrefix hmiddle).trans (occurrences_le_of_isSuffix hsuffix)

/-- A pattern that begins a text and stands behind its own place there stands in it twice. -/
theorem two_le_occurrences {c : Char} (hbegins : pattern <+: c :: cs)
    (hlater : pattern <:+: cs) (hne : pattern ≠ []) : 2 ≤ occurrences pattern (c :: cs) := by
  have hself : 1 ≤ occurrences pattern pattern := by
    cases pattern with
    | nil => exact absurd rfl hne
    | cons d pattern =>
      rw [occurrences_cons, if_pos List.prefix_rfl]
      exact Nat.le_add_left 1 _
  rw [occurrences_cons, if_pos hbegins]
  exact Nat.succ_le_succ (hself.trans (occurrences_le_of_isInfix hlater))

end

namespace DocComment

/-- A logical line that comes back when it is written. -/
structure Writable (l : String) : Prop where
  ne_empty : l ≠ ""
  isTrimmed : IsTrimmed isBlank l.toList
  isOneLine : IsOneLine l.toList
  not_closing : ¬ closingMark <:+ l.toList

/-! ## Marks at the ends of a line -/

section

variable {cs ds : List Char}

theorem isSuffix_dropOpening (cs : List Char) : dropOpening cs <:+ cs := by
  have hdrop (rest : List Char) :
      (rest.dropWhile (· == '*')).dropWhile isBlank <:+ rest :=
    (List.dropWhile_suffix _).trans (List.dropWhile_suffix _)
  unfold dropOpening
  split
  · exact (hdrop _).trans ⟨['/', '*', '*'], rfl⟩
  · exact (hdrop _).trans (List.suffix_cons '*' _)
  · exact List.suffix_rfl

theorem head_dropOpening (h : ∀ c ∈ cs.head?, isBlank c = false) :
    ∀ c ∈ (dropOpening cs).head?, isBlank c = false := by
  unfold dropOpening
  split
  · exact head_dropWhile
  · exact head_dropWhile
  · exact h

theorem dropClosing_append (cs : List Char) :
    dropClosing (cs ++ closingMark) =
      dropTrailing isBlank (dropTrailing (· == '*') cs) := by
  simp only [dropClosing, closingMark, dropTrailing, List.reverse_append, List.reverse_cons,
    List.reverse_nil, List.nil_append, List.cons_append, List.reverse_reverse]

theorem dropClosing_of_not (h : ¬ closingMark <:+ cs) : dropClosing cs = cs := by
  unfold dropClosing
  split
  · rename_i rest hreverse
    rw [List.reverse_eq_iff, List.reverse_cons, List.reverse_cons, List.append_assoc] at hreverse
    exact absurd ⟨rest.reverse, hreverse.symm⟩ h
  · rfl

theorem isPrefix_dropClosing (cs : List Char) : dropClosing cs <+: cs := by
  by_cases h : closingMark <:+ cs
  · obtain ⟨front, rfl⟩ := h
    rw [dropClosing_append]
    exact ((isPrefix_dropTrailing _ _).trans (isPrefix_dropTrailing _ _)).trans
      (List.prefix_append front closingMark)
  · rw [dropClosing_of_not h]

theorem last_dropClosing (h : ∀ c ∈ cs.getLast?, isBlank c = false) :
    ∀ c ∈ (dropClosing cs).getLast?, isBlank c = false := by
  by_cases hclosing : closingMark <:+ cs
  · obtain ⟨front, rfl⟩ := hclosing
    rw [dropClosing_append]
    exact last_dropTrailing
  · rwa [dropClosing_of_not hclosing]

/-- A mark that is still there when the last one is gone stands before that one. -/
theorem not_closing_dropClosing (h : occurrences closingMark cs ≤ 1) :
    ¬ closingMark <:+ dropClosing cs := by
  intro hleft
  by_cases hclosing : closingMark <:+ cs
  · obtain ⟨front, rfl⟩ := hclosing
    have hfront : dropClosing (front ++ closingMark) <+: front := by
      rw [dropClosing_append]
      exact (isPrefix_dropTrailing _ _).trans (isPrefix_dropTrailing _ _)
    obtain ⟨before, after, rfl⟩ := hleft.isInfix.trans hfront.isInfix
    have htwice : 2 ≤ occurrences closingMark ('*' :: '/' :: (after ++ closingMark)) :=
      two_le_occurrences ⟨after ++ closingMark, rfl⟩
        ((List.suffix_append ('/' :: after) closingMark).isInfix) (by decide)
    have hsuffix : '*' :: '/' :: (after ++ closingMark) <:+
        before ++ closingMark ++ after ++ closingMark := ⟨before, by simp [closingMark]⟩
    have hle : occurrences closingMark ('*' :: '/' :: (after ++ closingMark)) ≤ 1 :=
      (occurrences_le_of_isSuffix hsuffix).trans h
    exact absurd htwice (Nat.not_le_of_lt (Nat.lt_succ_of_le hle))
  · rw [dropClosing_of_not hclosing] at hleft
    exact hclosing hleft

end

/-! ## What a line says -/

/-- What a line says stands between the marks of the trimmed line. -/
theorem toList_lineText? {line l : String} (h : lineText? line = some l) :
    l.toList = dropClosing (dropOpening (trim isBlank line).toList) := by
  simp only [lineText?] at h
  split at h
  · exact absurd h nofun
  · rw [← Option.some.inj h, String.toList_ofList]

/-- What a line says is a trimmed part of it. -/
theorem lineText?_spec {line l : String} (h : lineText? line = some l) :
    IsTrimmed isBlank l.toList ∧ l.toList <:+: line.toList := by
  have htrim := isTrimmed_trim isBlank line
  rw [toList_lineText? h]
  refine ⟨⟨head_of_isPrefix (isPrefix_dropClosing _) (head_dropOpening htrim.head),
    last_dropClosing (last_of_isSuffix (isSuffix_dropOpening _) htrim.last)⟩, ?_⟩
  exact ((isPrefix_dropClosing _).isInfix.trans (isSuffix_dropOpening _).isInfix).trans
    (isInfix_trim isBlank line)

/-- What a line says does not close the comment, if the line does so once at most. -/
theorem not_closing_lineText? {line l : String} (h : lineText? line = some l)
    (honce : occurrences closingMark line.toList ≤ 1) : ¬ closingMark <:+ l.toList := by
  rw [toList_lineText? h]
  refine not_closing_dropClosing (le_trans ?_ honce)
  exact occurrences_le_of_isInfix
    ((isSuffix_dropOpening _).isInfix.trans (isInfix_trim isBlank line))

/-- What a line says that has a mark and a space before it once it is trimmed. -/
theorem lineText?_of_trim {line l : String}
    (htrim : (trim isBlank line).toList = '*' :: ' ' :: l.toList)
    (htrimmed : IsTrimmed isBlank l.toList) (hclosing : ¬ closingMark <:+ l.toList) :
    lineText? line = some l := by
  have hcloses : closesComment ('*' :: ' ' :: l.toList) = false := rfl
  have hopening : dropOpening ('*' :: ' ' :: l.toList) = l.toList :=
    dropWhile_of_head htrimmed.head
  simp only [lineText?, htrim, hcloses, hopening, dropClosing_of_not hclosing,
    String.ofList_toList, Bool.false_eq_true, if_false]

/-- A line that is written with the mark before it says what was written, also with blanks behind. -/
theorem lineText?_written {l : String} {back : List Char} (hback : ∀ c ∈ back, isBlank c = true)
    (htrimmed : IsTrimmed isBlank l.toList) (hclosing : ¬ closingMark <:+ l.toList)
    (hne : l ≠ "") : lineText? (" * " ++ l ++ String.ofList back) = some l := by
  have hchars : (" * " ++ l ++ String.ofList back).toList =
      [' '] ++ ('*' :: ' ' :: l.toList) ++ back := by
    simp only [String.toList_append, String.toList_ofList]
    rfl
  have hlast : ('*' :: ' ' :: l.toList).getLast? = l.toList.getLast? :=
    List.getLast?_append_of_ne_nil ['*', ' '] (mt String.toList_eq_nil_iff.mp hne)
  have hmarked : IsTrimmed isBlank ('*' :: ' ' :: l.toList) :=
    ⟨fun c hc => Option.some.inj hc ▸ by decide, hlast ▸ htrimmed.last⟩
  refine lineText?_of_trim ?_ htrimmed hclosing
  exact toList_trim_surrounded hchars forall_isBlank_space hback hmarked

theorem lineText?_begin : lineText? "/**" = some "" := by decide

theorem lineText?_empty : lineText? "" = some "" := by decide

theorem lineText?_mark : lineText? " * " = some "" := by decide

theorem lineText?_end : lineText? " */" = none := by decide

/-! ## Logical lines of a text -/

/-- A line that is continued by another is as fit to be written as both. -/
theorem Writable.join {l l' : String} (h : Writable l) (h' : Writable l') :
    Writable (l ++ " " ++ l') := by
  have hchars : (l ++ " " ++ l').toList = l.toList ++ [' '] ++ l'.toList := by
    rw [String.toList_append, String.toList_append]
    rfl
  have hne : l.toList ≠ [] := mt String.toList_eq_nil_iff.mp h.ne_empty
  have hne' : l'.toList ≠ [] := mt String.toList_eq_nil_iff.mp h'.ne_empty
  refine ⟨fun hempty => ?_, ?_, ?_, fun hclosing => ?_⟩
  · rw [hempty] at hchars
    exact hne' (List.append_eq_nil_iff.mp hchars.symm).2
  · rw [hchars]
    exact h.isTrimmed.append h'.isTrimmed hne hne'
  · rw [hchars, isOneLine_append, isOneLine_append]
    exact ⟨⟨h.isOneLine, by decide⟩, h'.isOneLine⟩
  · rw [hchars, List.append_assoc] at hclosing
    have hlong : closingMark.length ≤ ([' '] ++ l'.toList).length :=
      Nat.succ_le_succ (List.length_pos_of_ne_nil hne')
    have hend : closingMark <:+ ' ' :: l'.toList :=
      List.suffix_of_suffix_length_le hclosing (List.suffix_append _ _) hlong
    rcases List.suffix_cons_iff.mp hend with heq | hsuffix
    · exact absurd (List.cons.inj heq).1 (by decide)
    · exact h'.not_closing hsuffix

/-- What holds of lines, and of two when one continues the other, holds of the logical lines. -/
theorem forall_mem_joinLines {P : String → Prop} {current : String} {rest : List String}
    (hjoin : ∀ l l', P l → P l' → P (l ++ " " ++ l')) (hcurrent : current ≠ "" → P current)
    (hrest : ∀ l ∈ rest, l ≠ "" → P l) : ∀ l ∈ joinLines current rest, P l := by
  have hfinished {current : String} (hcurrent : current ≠ "" → P current) :
      ∀ l ∈ finished current, P l := by
    intro l hl
    unfold finished at hl
    split_ifs at hl with hempty
    · exact absurd hl List.not_mem_nil
    · rw [List.mem_singleton.mp hl]
      exact hcurrent hempty
  fun_induction joinLines current rest with
  | case1 current => exact hfinished hcurrent
  | case2 current line rest _ ih =>
    obtain ⟨hline, hrest⟩ := List.forall_mem_cons.mp hrest
    exact List.forall_mem_append.mpr ⟨hfinished hcurrent, ih hline hrest⟩
  | case3 current line rest hcontinues ih =>
    obtain ⟨hline, hrest⟩ := List.forall_mem_cons.mp hrest
    refine ih (fun _ => ?_) hrest
    have hholds : P line := hline fun hempty => hcontinues (.inl hempty)
    split_ifs with hempty
    · exact hholds
    · exact hjoin current line (hcurrent hempty) hholds

/-- The logical lines of a text are writable, if no line of it closes the comment twice. -/
theorem writable_ofText {s : String}
    (h : ∀ line ∈ Text.lines s, occurrences closingMark line.toList ≤ 1) :
    ∀ l ∈ (ofText s).lines, Writable l := by
  refine forall_mem_joinLines (fun _ _ => Writable.join) (fun hne => absurd rfl hne)
    fun l hl hne => ?_
  obtain ⟨line, hline, hl⟩ := List.mem_filterMap.mp hl
  obtain ⟨htrimmed, hpart⟩ := lineText?_spec hl
  exact ⟨hne, htrimmed, (mem_lines hline).1.of_isInfix hpart, not_closing_lineText? hl (h line hline)⟩

/-! ## Comments as they are written -/

/-- The lines of a written comment between its first and its last one. -/
def writtenLines (ls : List String) : List String :=
  if ls = [] then [""] else (ls.map (" * " ++ ·)).intersperse ""

theorem toList_intercalate_newlines (l : String) (ls : List String) :
    ("\n\n".intercalate (l :: ls)).toList ++ ['\n'] = unlines ((l :: ls).intersperse "") := by
  rw [String.toList_intercalate]
  induction ls generalizing l with
  | nil =>
    rw [List.intersperse_singleton, unlines_cons, unlines_nil, List.map_singleton,
      List.intercalate_singleton]
  | cons l' ls ih =>
    rw [List.intersperse_cons_cons, unlines_cons, unlines_cons, ← ih, List.map_cons, List.map_cons,
      List.intercalate_cons_cons]
    simp

/-- A comment is written line by line. -/
theorem toList_render (d : DocComment) :
    d.render.toList = unlines ("/**" :: (writtenLines d.lines ++ [" */"])) := by
  have hbody : ("\n\n".intercalate (d.lines.map (" * " ++ ·))).toList ++ ['\n'] =
      unlines (writtenLines d.lines) := by
    cases d.lines with
    | nil => rfl
    | cons l ls =>
      rw [List.map_cons, toList_intercalate_newlines, writtenLines, if_neg (List.cons_ne_nil l ls),
        List.map_cons]
  rw [unlines_cons, unlines_append, ← hbody, render, String.toList_append, String.toList_append]
  simp

theorem isOneLine_writtenLines {ls : List String} (h : ∀ l ∈ ls, Writable l) :
    ∀ line ∈ writtenLines ls, IsOneLine line.toList := by
  have hmarked {l : String} (hl : Writable l) : IsOneLine (" * " ++ l).toList := by
    rw [String.toList_append, isOneLine_append]
    exact ⟨by decide, hl.isOneLine⟩
  unfold writtenLines
  split_ifs with hnil
  · decide
  · clear hnil
    induction ls with
    | nil => exact nofun
    | cons l ls ih =>
      obtain ⟨hl, hls⟩ := List.forall_mem_cons.mp h
      cases ls with
      | nil => exact List.forall_mem_singleton.mpr (hmarked hl)
      | cons l' ls =>
        exact List.forall_mem_cons.mpr ⟨hmarked hl, List.forall_mem_cons.mpr ⟨by decide, ih hls⟩⟩

theorem lineText?_writable {l : String} (h : Writable l) : lineText? (" * " ++ l) = some l := by
  rw [← String.append_empty (s := " * " ++ l), ← String.ofList_nil]
  exact lineText?_written nofun h.isTrimmed h.not_closing h.ne_empty

/-- The lines of a written comment say the logical lines, with an empty line between two of them. -/
theorem filterMap_writtenLines {ls : List String} (h : ∀ l ∈ ls, Writable l) :
    (writtenLines ls).filterMap lineText? = if ls = [] then [""] else ls.intersperse "" := by
  unfold writtenLines
  split_ifs with hnil
  · exact List.filterMap_cons_some lineText?_empty
  · clear hnil
    induction ls with
    | nil => rfl
    | cons l ls ih =>
      obtain ⟨hl, hls⟩ := List.forall_mem_cons.mp h
      rw [List.map_cons]
      cases ls with
      | nil => exact List.filterMap_cons_some (lineText?_writable hl)
      | cons l' ls =>
        rw [List.map_cons, List.intersperse_cons_cons, List.intersperse_cons_cons,
          List.filterMap_cons_some (lineText?_writable hl),
          List.filterMap_cons_some lineText?_empty, ← List.map_cons, ih hls]

theorem joinLines_empty (current : String) (rest : List String) :
    joinLines current ("" :: rest) = finished current ++ joinLines "" rest := by
  rw [joinLines, if_pos (.inl rfl)]

theorem joinLines_tag {line : String} (h : isTag line = true) (current : String)
    (rest : List String) :
    joinLines current (line :: rest) = finished current ++ joinLines line rest := by
  rw [joinLines, if_pos (.inr h)]

theorem joinLines_first (line : String) (rest : List String) :
    joinLines "" (line :: rest) = joinLines line rest := by
  rw [joinLines]
  split_ifs with hbegins hempty
  · rfl
  · rfl
  · exact absurd rfl hempty

theorem finished_of_ne {l : String} (h : l ≠ "") : finished l = [l] := if_neg h

theorem ne_empty_of_isTag {l : String} (h : isTag l = true) : l ≠ "" :=
  fun hempty => absurd h (hempty ▸ by decide)

/-- Tags are logical lines behind those of the lines before them. -/
theorem joinLines_append {current : String} {rest tags : List String}
    (htags : ∀ t ∈ tags, isTag t = true) :
    joinLines current (rest ++ tags) = joinLines current rest ++ tags := by
  fun_induction joinLines current rest with
  | case1 current =>
    rw [List.nil_append]
    induction tags generalizing current with
    | nil => rw [joinLines, List.append_nil]
    | cons t tags ih =>
      obtain ⟨ht, htags⟩ := List.forall_mem_cons.mp htags
      rw [joinLines_tag ht, ih htags, finished_of_ne (ne_empty_of_isTag ht), List.singleton_append]
  | case2 current line rest hbegins ih =>
    rw [List.cons_append, joinLines, if_pos hbegins, ih, List.append_assoc]
  | case3 current line rest hcontinues ih =>
    rw [List.cons_append, joinLines, if_neg hcontinues, ih]

theorem isTag_append {l : String} (h : l ≠ "") (l' : String) : isTag (l ++ l') = isTag l := by
  rw [isTag, isTag, String.toList_append,
    List.head?_append_of_ne_nil _ (mt String.toList_eq_nil_iff.mp h)]

/-- Lines without a tag make up logical lines without one. -/
theorem not_isTag_joinLines {rest : List String} (hrest : ∀ l ∈ rest, isTag l = false) :
    ∀ l ∈ joinLines "" rest, isTag l = false := by
  refine forall_mem_joinLines (fun l l' hl _ => ?_) (fun hne => absurd rfl hne)
    fun l hl _ => hrest l hl
  rw [String.append_assoc]
  by_cases hempty : l = ""
  · rw [hempty, String.empty_append, isTag_append (by decide)]
    rfl
  · rw [isTag_append hempty, hl]

/-- Logical lines with an empty line between two of them are read as they are. -/
theorem joinLines_intersperse {ls : List String} (h : ∀ l ∈ ls, l ≠ "") :
    joinLines "" (ls.intersperse "") = ls := by
  induction ls with
  | nil => rfl
  | cons l ls ih =>
    obtain ⟨hl, hls⟩ := List.forall_mem_cons.mp h
    cases ls with
    | nil => rw [List.intersperse_singleton, joinLines_first, joinLines, finished_of_ne hl]
    | cons l' ls =>
      rw [List.intersperse_cons_cons, joinLines_first, joinLines_empty, finished_of_ne hl, ih hls,
        List.singleton_append]

/-- A comment with writable logical lines is read as it was written. -/
theorem ofText_render {d : DocComment} (h : ∀ l ∈ d.lines, Writable l) : ofText d.render = d := by
  have hlines : Text.lines d.render = "/**" :: (writtenLines d.lines ++ [" */"]) := by
    have hone : ∀ line ∈ "/**" :: (writtenLines d.lines ++ [" */"]), IsOneLine line.toList :=
      List.forall_mem_cons.mpr ⟨by decide,
        List.forall_mem_append.mpr ⟨isOneLine_writtenLines h, by decide⟩⟩
    rw [Text.lines, toList_render, ← List.append_nil (unlines _), lines_unlines_append hone,
      linesFrom_nil, List.append_nil]
  have hread : joinLines "" (if d.lines = [] then [""] else d.lines.intersperse "") = d.lines := by
    split_ifs with hnil
    · rw [hnil]
      rfl
    · exact joinLines_intersperse fun l hl => (h l hl).ne_empty
  have hclose : [" */"].filterMap lineText? = [] := List.filterMap_cons_none lineText?_end
  rw [ofText, hlines, List.filterMap_cons_some lineText?_begin, List.filterMap_append, hclose,
    List.append_nil, filterMap_writtenLines h, joinLines_empty, finished, if_pos rfl,
    List.nil_append, hread]

/-- What was read from a text that closes the comment once at most is read again when it is written:
the logical lines stay the same, and so does what is written of them. -/
theorem ofText_render_ofText {s : String} (h : occurrences closingMark s.toList ≤ 1) :
    (ofText (ofText s).render).lines = (ofText s).lines ∧
      (ofText (ofText s).render).render = (ofText s).render := by
  have honce : ∀ line ∈ Text.lines s, occurrences closingMark line.toList ≤ 1 := fun line hline =>
    (occurrences_le_of_isInfix (mem_lines hline).2).trans h
  have hagain : ofText (ofText s).render = ofText s := ofText_render (writable_ofText honce)
  rw [hagain]
  exact ⟨rfl, rfl⟩

/-- Marks as content, a tag that goes on in the next line, an empty line, and four line boundaries. -/
theorem ofText_render_ofText_marks :
    occurrences closingMark
        "/** * /Cages\r\n** keep @ *\u2028*\n\t@see /**a\x0B  * */b\r* @end".toList ≤ 1 ∧
      (ofText (ofText
          "/** * /Cages\r\n** keep @ *\u2028*\n\t@see /**a\x0B  * */b\r* @end").render).lines =
        ["* /Cages keep @ *", "@see /**a */b", "@end"] :=
  ⟨by decide, (ofText_render_ofText (by decide)).1.trans (by decide)⟩

-- With two closing marks, the one that is left at the end of a line goes when it is read again.
example :
    (ofText "/** a */ */").lines = ["a */"] ∧ (ofText (ofText "/** a */ */").render).lines = ["a"] := by
  decide

end DocComment
end Reflection
