import Reflection.Proofs.DocComment
import Reflection.Proofs.DocComment.Variable

/-!
# Parameters that are written into a comment

A comment is written with prose first and then a line for each parameter, with its types, its name and
its description. The documentation of a parameter is read back from its own line, whatever other
variables, tags or bars the descriptions mention, and there is none under other names.

## Main definitions

* `ParameterTag`, `ParameterTag.line`: the documentation of a parameter, and the line for it.
* `IsProse`: lines of free text.
* `commentOf`: a comment of prose and parameters.

## Main statements

* `DocComment.lines_ofText_commentOf`: the logical lines of such a comment.
* `DocComment.parameterDoc?_commentOf`: what is read for a parameter, and under other names.
-/
namespace Reflection

open Reflection.Text

/-- The documentation of a parameter. -/
structure ParameterTag where
  types : String
  name : String
  description : String
  types_ne : types ≠ ""
  types_solid : ∀ c ∈ types.toList, isBlank c = false
  isName : isVariableName name = true
  isTrimmed : IsTrimmed isBlank description.toList
  isOneLine : IsOneLine description.toList
  not_closing : ¬ closingMark <:+: description.toList

/-- A line of free text. -/
structure IsProse (l : String) : Prop where
  not_tag : DocComment.isTag l = false
  isTrimmed : IsTrimmed isBlank l.toList
  isOneLine : IsOneLine l.toList
  not_closing : ¬ closingMark <:+: l.toList

namespace ParameterTag

/-- The line of a comment for a parameter. -/
def line (p : ParameterTag) : String :=
  " * @param " ++ p.types ++ " $" ++ p.name ++ " " ++ p.description

/-- What the tag of a parameter says before the description. -/
def declaration (p : ParameterTag) : String := p.types ++ " $" ++ p.name

/-- What stands behind the name of a parameter. -/
def ending (p : ParameterTag) : String := if p.description = "" then "" else " " ++ p.description

/-- What the tag of a parameter says. -/
def text (p : ParameterTag) : String := p.declaration ++ p.ending

/-- The logical line of a parameter. -/
def logicalLine (p : ParameterTag) : String := "@param " ++ p.text

/-- What is read for a parameter. -/
def record (p : ParameterTag) : TypeDescription := ⟨splitTypes p.types.toList, p.description⟩

end ParameterTag

/-- A comment of prose and parameters. -/
def commentOf (prose : List String) (ps : List ParameterTag) : String :=
  "\n".intercalate
    ("/**" :: (prose.map (" * " ++ ·) ++ ps.map ParameterTag.line) ++ [" */"])

/-! ## The line of a parameter -/

section

variable {name : String}

theorem getLast_of_isVariableName (h : isVariableName name = true) :
    ∃ c, name.toList.getLast? = some c ∧ continuesVariable c = true := by
  obtain ⟨c, rest, hchars, hstarts, hrest⟩ := isVariableName_iff.mp h
  have hall : ∀ d ∈ c :: rest, continuesVariable d = true :=
    List.forall_mem_cons.mpr ⟨by rw [continuesVariable, hstarts, Bool.true_or], hrest⟩
  rw [hchars, List.getLast?_eq_some_getLast (List.cons_ne_nil c rest)]
  exact ⟨_, rfl, hall _ (List.getLast_mem _)⟩

theorem isOneLine_of_isVariableName (h : isVariableName name = true) : IsOneLine name.toList := by
  obtain ⟨c, rest, hchars, hstarts, hrest⟩ := isVariableName_iff.mp h
  rw [hchars]
  refine isOneLine_of_not_isBlank (List.forall_mem_cons.mpr ⟨?_, fun d hd => ?_⟩)
  · exact isBlank_of_continuesVariable (by rw [continuesVariable, hstarts, Bool.true_or])
  · exact isBlank_of_continuesVariable (hrest d hd)

end

namespace ParameterTag

open DocComment

variable (p : ParameterTag)

/-- The tag of a parameter without its description can be written. -/
theorem writable_declaration : Writable ("@param " ++ p.declaration) := by
  have hchars : ("@param " ++ p.declaration).toList =
      "@param ".toList ++ p.types.toList ++ " $".toList ++ p.name.toList := by
    simp only [declaration, String.toList_append, List.append_assoc]
  obtain ⟨c, hc, hcontinues⟩ := getLast_of_isVariableName p.isName
  have hlast : ("@param " ++ p.declaration).toList.getLast? = some c := by
    rw [hchars, List.getLast?_append_of_ne_nil _ (fun hnil => by simp [hnil] at hc), hc]
  refine ⟨fun hempty => ?_, ⟨?_, ?_⟩, ?_, ?_⟩
  · rw [hempty] at hlast
    exact absurd hlast nofun
  · rw [String.toList_append]
    exact fun d hd => Option.some.inj hd ▸ by decide
  · rw [hlast]
    exact fun d hd => Option.some.inj hd ▸ isBlank_of_continuesVariable hcontinues
  · rw [hchars]
    simp only [isOneLine_append]
    exact ⟨⟨⟨by decide, isOneLine_of_not_isBlank p.types_solid⟩, by decide⟩,
      isOneLine_of_isVariableName p.isName⟩
  · rintro ⟨front, hfront⟩
    rw [← hfront, List.getLast?_append_of_ne_nil front (by decide)] at hlast
    rw [← Option.some.inj hlast] at hcontinues
    exact absurd hcontinues (by decide)

theorem writable_description (h : p.description ≠ "") : Writable p.description :=
  ⟨h, p.isTrimmed, p.isOneLine, fun hsuffix => p.not_closing hsuffix.isInfix⟩

/-- The line of a parameter says its declaration and its description. -/
theorem lineText?_line : lineText? p.line = some p.logicalLine := by
  have hmark : " * @param " = " * " ++ "@param " := rfl
  by_cases hempty : p.description = ""
  · have hline : p.line = " * " ++ ("@param " ++ p.declaration) ++ String.ofList [' '] := by
      simp only [line, hmark, hempty, declaration, String.append_assoc, String.append_empty]
    have hwritable := p.writable_declaration
    rw [hline, logicalLine, text, ending, if_pos hempty, String.append_empty]
    exact lineText?_written forall_isBlank_space hwritable.isTrimmed hwritable.not_closing
      hwritable.ne_empty
  · have hline : p.line = " * " ++ ("@param " ++ p.declaration ++ " " ++ p.description) := by
      simp only [line, hmark, declaration, String.append_assoc]
    have hsays : p.logicalLine = "@param " ++ p.declaration ++ " " ++ p.description := by
      rw [logicalLine, text, ending, if_neg hempty, String.append_assoc, String.append_assoc]
    rw [hline, hsays]
    exact lineText?_writable (p.writable_declaration.join (p.writable_description hempty))

theorem isOneLine_line : IsOneLine p.line.toList := by
  simp only [line, String.toList_append, isOneLine_append]
  exact ⟨⟨⟨⟨⟨by decide, isOneLine_of_not_isBlank p.types_solid⟩, by decide⟩,
    isOneLine_of_isVariableName p.isName⟩, by decide⟩, p.isOneLine⟩

theorem descriptionAfter_ending : descriptionAfter p.ending.toList = p.description := by
  unfold ending
  split_ifs with hempty
  · rw [hempty]
    rfl
  · rw [String.toList_append]
    have hdrop : (' ' :: p.description.toList).dropWhile isBlank = p.description.toList := by
      rw [List.dropWhile_cons_of_pos (by decide), dropWhile_of_head p.isTrimmed.head]
    have hspace : " ".toList ++ p.description.toList = ' ' :: p.description.toList := rfl
    rw [hspace, descriptionAfter, hdrop, String.ofList_toList]
    rfl

/-- The tag of a parameter describes it. -/
theorem describes : Describes p.text p.name p.record := by
  refine ⟨p.types.toList, [' '], p.ending.toList, ⟨⟨'$' :: (p.name.toList ++ p.ending.toList), ?_,
    rfl, p.isName, ?_⟩, forall_isBlank_space, List.cons_ne_nil _ _, ?_, ?_⟩, ?_⟩
  · simp only [text, declaration, String.toList_append, List.append_assoc]
    rfl
  · unfold ending
    split_ifs with hempty
    · exact nofun
    · rw [String.toList_append]
      exact fun d hd => Option.some.inj hd ▸ by decide
  · exact fun c hc => p.types_solid c (List.mem_of_getLast? hc)
  · exact not_afterBlank_of_solid p.types_solid
  · rw [p.descriptionAfter_ending, record]

/-- The logical line of a parameter is its tag. -/
theorem isTagLine : IsTagLine "param" p.logicalLine p.text := by
  refine ⟨⟨[' '], ?_, forall_isBlank_space, nofun⟩, ?_⟩
  · rw [logicalLine, String.toList_append]
    rfl
  · obtain ⟨c, rest, hchars⟩ := List.exists_cons_of_ne_nil
      (mt String.toList_eq_nil_iff.mp p.types_ne)
    simp only [text, declaration, String.toList_append, hchars, List.cons_append]
    exact fun d hd => Option.some.inj hd ▸ p.types_solid c (hchars ▸ List.mem_cons_self)

theorem isTag_logicalLine : isTag p.logicalLine = true := isTag_append (by decide) p.text

end ParameterTag

/-! ## Comments of prose and parameters -/

namespace DocComment

variable {prose : List String} {ps : List ParameterTag}

theorem lineText?_prose {l : String} (h : IsProse l) : lineText? (" * " ++ l) = some l := by
  by_cases hempty : l = ""
  · rw [hempty]
    exact lineText?_mark
  · exact lineText?_writable
      ⟨hempty, h.isTrimmed, h.isOneLine, fun hsuffix => h.not_closing hsuffix.isInfix⟩

theorem filterMap_map_eq {α β : Type} {f : β → Option β} {g h : α → β} {xs : List α}
    (heq : ∀ x ∈ xs, f (g x) = some (h x)) : (xs.map g).filterMap f = xs.map h := by
  rw [List.filterMap_map, ← List.filterMap_eq_map]
  exact List.filterMap_congr heq

/-- A comment has the logical lines of its prose, and then one for each parameter. -/
theorem lines_ofText_commentOf (hprose : ∀ l ∈ prose, IsProse l) :
    (ofText (commentOf prose ps)).lines =
      joinLines "" prose ++ ps.map ParameterTag.logicalLine := by
  have hmarked : ∀ line ∈ prose.map (" * " ++ ·), IsOneLine line.toList := by
    intro line hline
    obtain ⟨l, hl, rfl⟩ := List.mem_map.mp hline
    rw [String.toList_append, isOneLine_append]
    exact ⟨by decide, (hprose l hl).isOneLine⟩
  have hparameters : ∀ line ∈ ps.map ParameterTag.line, IsOneLine line.toList := by
    intro line hline
    obtain ⟨p, -, rfl⟩ := List.mem_map.mp hline
    exact p.isOneLine_line
  have hone : ∀ line ∈ "/**" :: (prose.map (" * " ++ ·) ++ ps.map ParameterTag.line),
      IsOneLine line.toList :=
    List.forall_mem_cons.mpr ⟨by decide, List.forall_mem_append.mpr ⟨hmarked, hparameters⟩⟩
  have hread : (prose.map (" * " ++ ·)).filterMap lineText? = prose :=
    (filterMap_map_eq fun l hl => lineText?_prose (hprose l hl)).trans (List.map_id' prose)
  have hclose : [" */"].filterMap lineText? = [] := List.filterMap_cons_none lineText?_end
  have htags : ∀ t ∈ ps.map ParameterTag.logicalLine, isTag t = true := by
    intro t ht
    obtain ⟨p, -, rfl⟩ := List.mem_map.mp ht
    exact p.isTag_logicalLine
  rw [ofText, commentOf, lines_intercalate hone (by decide) (by decide), List.filterMap_append,
    hclose, List.append_nil, List.filterMap_cons_some lineText?_begin, List.filterMap_append,
    hread, filterMap_map_eq fun p _ => p.lineText?_line, joinLines_empty, finished, if_pos rfl,
    List.nil_append, joinLines_append htags]

/-- A line of such a comment that describes a variable is the line of a parameter of that name. -/
theorem exists_parameter_of_describes {line text name : String} {r : TypeDescription}
    (hprose : ∀ l ∈ prose, IsProse l)
    (hline : line ∈ joinLines "" prose ++ ps.map ParameterTag.logicalLine)
    (htag : IsTagLine "param" line text) (hdescribes : Describes text name r) :
    ∃ p ∈ ps, p.name = name := by
  rcases List.mem_append.mp hline with hfree | hparameter
  · have hplain : isTag line = false :=
      not_isTag_joinLines (fun l hl => (hprose l hl).not_tag) line hfree
    obtain ⟨spaces, hspelled, -⟩ := htag.spelled
    rw [isTag, hspelled] at hplain
    exact absurd hplain (by simp)
  · obtain ⟨p, hp, rfl⟩ := List.mem_map.mp hparameter
    have htext : some text = some p.text :=
      (tagText?_eq_some_iff.mpr htag).symm.trans (tagText?_eq_some_iff.mpr p.isTagLine)
    rw [Option.some.inj htext, ← describedVariable?_eq_some_iff] at hdescribes
    have hsame := hdescribes.symm.trans (describedVariable?_eq_some_iff.mpr p.describes)
    exact ⟨p, hp, (Prod.mk.inj (Option.some.inj hsame)).1.symm⟩

/-- Parameters with names of their own are read as they were written, and nothing is read under other
names. -/
theorem parameterDoc?_commentOf (hprose : ∀ l ∈ prose, IsProse l)
    (hnames : (ps.map ParameterTag.name).Nodup) :
    (∀ p ∈ ps, (ofText (commentOf prose ps)).parameterDoc? p.name =
      some ⟨splitTypes p.types.toList, p.description⟩) ∧
    ∀ name, name ∉ ps.map ParameterTag.name →
      (ofText (commentOf prose ps)).parameterDoc? name = none := by
  refine ⟨fun p hp => ?_, fun name hname => ?_⟩
  · obtain ⟨before, after, rfl⟩ := List.append_of_mem hp
    refine described?_eq_some_iff.mpr ⟨joinLines "" prose ++ before.map ParameterTag.logicalLine,
      p.logicalLine, after.map ParameterTag.logicalLine, p.text, ?_, p.isTagLine, p.describes, ?_⟩
    · rw [lines_ofText_commentOf hprose, List.map_append, List.map_cons, List.append_assoc]
    · intro line hline text r htag hdescribes
      obtain ⟨q, hq, hqname⟩ := exists_parameter_of_describes hprose hline htag hdescribes
      rw [List.map_append, List.map_cons] at hnames
      refine (List.nodup_append.mp hnames).2.2 q.name (List.mem_map_of_mem hq) p.name
        List.mem_cons_self hqname
  · refine Option.eq_none_iff_forall_ne_some.mpr fun r hr => ?_
    obtain ⟨earlier, line, later, text, hlines, htag, hdescribes, -⟩ := described?_eq_some_iff.mp hr
    have hline : line ∈ joinLines "" prose ++ ps.map ParameterTag.logicalLine := by
      rw [← lines_ofText_commentOf hprose, hlines]
      exact List.mem_append_right _ List.mem_cons_self
    obtain ⟨p, hp, rfl⟩ := exists_parameter_of_describes hprose hline htag hdescribes
    exact hname (List.mem_map_of_mem hp)

/-- Prose and descriptions mention a variable, tags and bars. -/
theorem parameterDoc?_commentOf_mentions :
    let prose := ["Feeds $lion.", "", "* @param Lion $lion"]
    let animal : ParameterTag := ⟨"Animal|null", "animal", "or $lion | @param Lion $lion",
      by decide, eq_false_of_all (by decide), by decide, by decide, by decide, by decide⟩
    let cage : ParameterTag := ⟨"Cage[]", "cage", "",
      by decide, eq_false_of_all (by decide), by decide, by decide, by decide, by decide⟩
    ((∀ l ∈ prose, IsProse l) ∧ ([animal, cage].map ParameterTag.name).Nodup) ∧
      (ofText (commentOf prose [animal, cage])).parameterDoc? "animal" =
        some ⟨["Animal", "null"], "or $lion | @param Lion $lion"⟩ ∧
      (ofText (commentOf prose [animal, cage])).parameterDoc? "cage" = some ⟨["Cage[]"], ""⟩ ∧
      (ofText (commentOf prose [animal, cage])).parameterDoc? "lion" = none := by
  intro prose animal cage
  have hprose : ∀ l ∈ prose, IsProse l := by
    simp only [prose, List.forall_mem_cons]
    exact ⟨⟨by decide, by decide, by decide, by decide⟩, ⟨by decide, by decide, by decide, by decide⟩,
      ⟨by decide, by decide, by decide, by decide⟩, nofun⟩
  have hnames : ([animal, cage].map ParameterTag.name).Nodup := by decide
  have hread := parameterDoc?_commentOf hprose hnames
  refine ⟨⟨hprose, hnames⟩, ?_, ?_, hread.2 "lion" (by decide)⟩
  · exact (hread.1 animal List.mem_cons_self).trans (by decide)
  · exact (hread.1 cage (List.mem_cons_of_mem _ List.mem_cons_self)).trans (by decide)

end DocComment
end Reflection
