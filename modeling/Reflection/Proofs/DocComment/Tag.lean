import Mathlib.Data.List.Perm.Basic
import Reflection.Proofs.DocComment.Variable

/-!
# Tag lines by their names

The name of a tag is the run of characters after the at sign up to the first blank. A name without blanks
finds the lines whose tag has just this name, so each tag line is found under one name, and the names
together find every tag line once. That one name begins another one makes no difference.

## Main definitions

* `DocComment.tagName`, `DocComment.tagContent`: the name of the tag of a line, and what the tag says.
* `DocComment.IsTagName`: names that tags can have.

## Main statements

* `DocComment.isTagLine_iff`: the name and the content of a tag line are determined by the line.
* `DocComment.tags_eq_map`: what is found under a name.
* `DocComment.existsUnique_tagText?`: the name under which a tag line is found.
* `DocComment.flatMap_tags_perm`: the names divide the tag lines among them.
* `DocComment.tags_partition`: all this together, for every way to ask for a tag.
-/
namespace Reflection

open Text

namespace DocComment

variable {d : DocComment} {name line text : String} {names : List String}

/-- Name of the tag of a line: the characters after the at sign up to the first blank. -/
def tagName (line : String) : String := String.ofList (line.toList.tail.takeWhile (!isBlank ·))

/-- What the tag of a line says: the text after the name and the blanks behind it. -/
def tagContent (line : String) : String :=
  String.ofList ((line.toList.tail.dropWhile (!isBlank ·)).dropWhile isBlank)

/-- Names that tags can have: those without blanks. -/
def IsTagName (name : String) : Prop := ∀ c ∈ name.toList, isBlank c = false

instance (name : String) : Decidable (IsTagName name) :=
  List.decidableBAll _ name.toList

/-- The name of a tag is one that tags can have. -/
theorem isTagName_tagName (line : String) : IsTagName (tagName line) := by
  intro c hc
  rw [tagName, String.toList_ofList] at hc
  simpa using List.mem_takeWhile_imp hc

/-! ## One line -/

theorem isTag_iff : isTag line = true ↔ ∃ rest, line.toList = '@' :: rest := by
  rw [isTag, beq_iff_eq, List.head?_eq_some_iff]

/-- A tag line has one name without blanks and says one thing under it. -/
theorem isTagLine_iff (hname : IsTagName name) :
    IsTagLine name line text ↔
      isTag line = true ∧ tagName line = name ∧ tagContent line = text := by
  constructor
  · rintro ⟨⟨spaces, hline, hspaces, hempty⟩, hhead⟩
    have hsolid : ∀ c ∈ name.toList, (!isBlank c) = true := fun c hc => by rw [hname c hc]; rfl
    have hbehind : ∀ c ∈ (spaces ++ text.toList).head?, (!isBlank c) = false := by
      cases spaces with
      | nil =>
        rw [hempty rfl]
        exact nofun
      | cons c spaces => exact fun d hd => by rw [← Option.some.inj hd, hspaces c List.mem_cons_self]; rfl
    have htail : line.toList.tail = name.toList ++ (spaces ++ text.toList) := by
      rw [hline, List.tail_cons, List.append_assoc]
    obtain ⟨htake, hdrop⟩ := span_append hsolid hbehind
    refine ⟨isTag_iff.mpr ⟨_, hline⟩, ?_, ?_⟩
    · rw [tagName, htail, htake, String.ofList_toList]
    · rw [tagContent, htail, hdrop, (span_append hspaces hhead).2, String.ofList_toList]
  · rintro ⟨htag, rfl, rfl⟩
    obtain ⟨rest, hline⟩ := isTag_iff.mp htag
    rw [tagName, tagContent, hline, List.tail_cons]
    refine ⟨⟨(rest.dropWhile (!isBlank ·)).takeWhile isBlank, ?_, fun c hc => List.mem_takeWhile_imp hc,
      fun hnil => ?_⟩, ?_⟩
    · rw [String.toList_ofList, String.toList_ofList, List.append_assoc, List.takeWhile_append_dropWhile,
        List.takeWhile_append_dropWhile]
      exact hline
    · -- What follows the name begins with a blank, if there is anything.
      cases hbehind : rest.dropWhile (!isBlank ·) with
      | nil => rfl
      | cons c behind =>
        have hc : isBlank c = true := by
          have hnot : (!isBlank c) = false := head_dropWhile c (by rw [hbehind]; rfl)
          simpa using hnot
        rw [hbehind, List.takeWhile_cons_of_pos hc] at hnil
        exact absurd hnil (List.cons_ne_nil c _)
    · rw [String.toList_ofList]
      exact head_dropWhile

/-- A name without blanks finds the content of a line if it is the name of its tag, and nothing
otherwise. -/
theorem tagText?_eq (hname : IsTagName name) (line : String) :
    tagText? name line = if isTag line = true ∧ tagName line = name then some (tagContent line) else none := by
  refine Option.ext fun text => ?_
  rw [tagText?_eq_some_iff, isTagLine_iff hname]
  split_ifs with h
  · rw [Option.some.injEq]
    exact ⟨fun hline => hline.2.2, fun htext => ⟨h.1, h.2, htext⟩⟩
  · exact ⟨fun hline => absurd ⟨hline.1, hline.2.1⟩ h, nofun⟩

/-! ## All lines -/

/-- Elements that are sorted by a key: the groups of different keys make up the list, in some order, if
every key of an element is among them. -/
theorem flatMap_filter_perm {α κ : Type} [DecidableEq κ] (key : α → κ) {keys : List κ}
    (hnodup : keys.Nodup) {xs : List α} (h : ∀ x ∈ xs, key x ∈ keys) :
    (keys.flatMap fun k => xs.filter (key · == k)).Perm xs := by
  induction keys generalizing xs with
  | nil =>
    rw [List.eq_nil_iff_forall_not_mem.mpr fun x hx => List.not_mem_nil (h x hx)]
    rfl
  | cons k keys ih =>
    obtain ⟨hk, hnodup⟩ := List.nodup_cons.mp hnodup
    have hothers : (keys.flatMap fun k' => xs.filter (key · == k')) =
        keys.flatMap fun k' => (xs.filter fun x => !(key x == k)).filter (key · == k') := by
      refine List.flatMap_congr fun k' hk' => ?_
      rw [List.filter_filter]
      refine List.filter_congr fun x _ => ?_
      by_cases hx : key x = k'
      · have hne : k' ≠ k := fun heq => hk (heq ▸ hk')
        simp [hx, hne]
      · simp [hx]
    have hrest : ∀ x ∈ xs.filter (fun x => !(key x == k)), key x ∈ keys := by
      intro x hx
      obtain ⟨hmem, hne⟩ := List.mem_filter.mp hx
      exact (List.mem_cons.mp (h x hmem)).resolve_left (by simpa using hne)
    rw [List.flatMap_cons, hothers]
    exact ((ih hnodup hrest).append_left _).trans (List.filter_append_perm _ xs)

/-- The tag lines of a comment. -/
def tagLines (d : DocComment) : List String := d.lines.filter isTag

/-- Under a name stands what its tag lines say, in their order. -/
theorem tags_eq_map (hname : IsTagName name) (d : DocComment) :
    d.tags name = (d.tagLines.filter (tagName · == name)).map tagContent := by
  rw [tags, tagLines, List.filter_filter]
  induction d.lines with
  | nil => rfl
  | cons line lines ih =>
    by_cases h : isTag line = true ∧ tagName line = name
    · rw [List.filterMap_cons_some ((tagText?_eq hname line).trans (if_pos h)),
        List.filter_cons_of_pos (by simp [h]), ih, List.map_cons]
    · rw [List.filterMap_cons_none ((tagText?_eq hname line).trans (if_neg h)),
        List.filter_cons_of_neg (by simpa [and_comm] using h), ih]

theorem hasTag_iff (hname : IsTagName name) (d : DocComment) :
    d.hasTag name = true ↔ ∃ line ∈ d.tagLines, tagName line = name := by
  rw [hasTag, tags_eq_map hname]
  simp

theorem tag?_eq (d : DocComment) (name : String) (k : Int) :
    d.tag? name k = if 0 ≤ k then (d.tags name)[k.toNat]? else none := by
  rw [tag?]
  split_ifs <;> first | rfl | omega

/-- A tag line is found under the name of its tag and under no other name. -/
theorem existsUnique_tagText? (hline : line ∈ d.tagLines) :
    ∃! name, IsTagName name ∧ (tagText? name line).isSome = true := by
  have htag : isTag line = true := (List.mem_filter.mp hline).2
  refine ⟨tagName line, ⟨isTagName_tagName line, ?_⟩, fun name hname => ?_⟩
  · rw [tagText?_eq (isTagName_tagName line), if_pos ⟨htag, rfl⟩]
    rfl
  · obtain ⟨hname, hsome⟩ := hname
    rw [tagText?_eq hname] at hsome
    split_ifs at hsome with h
    · exact h.2.symm
    · cases hsome

/-- The names of the tag lines divide what these say among them. -/
theorem flatMap_tags_perm (hnodup : names.Nodup) (hnames : ∀ name ∈ names, IsTagName name)
    (hall : ∀ line ∈ d.tagLines, tagName line ∈ names) :
    (names.flatMap d.tags).Perm (d.tagLines.map tagContent) := by
  have htags : names.flatMap d.tags =
      (names.flatMap fun name => d.tagLines.filter (tagName · == name)).map tagContent := by
    rw [List.map_flatMap]
    exact List.flatMap_congr fun name hname => tags_eq_map (hnames name hname) d
  rw [htags]
  exact (flatMap_filter_perm tagName hnodup hall).map tagContent

/-- Under a name without blanks stands, in the order of the lines, what those lines say that begin with an
at sign and have just this name up to the first blank after it. There is a tag of the name if there is such
a line, and the tags of the name can be asked for one by one. Each tag line is found under one such name, and
different names among which are those of all tag lines find together what all tag lines say. -/
theorem tags_partition (d : DocComment) :
    (∀ name, IsTagName name →
      d.tags name = (d.tagLines.filter (tagName · == name)).map tagContent ∧
      (d.hasTag name = true ↔ ∃ line ∈ d.tagLines, tagName line = name) ∧
      ∀ k : Int, d.tag? name k = if 0 ≤ k then (d.tags name)[k.toNat]? else none) ∧
    (∀ line ∈ d.tagLines, ∃! name, IsTagName name ∧ (tagText? name line).isSome = true) ∧
    ∀ names : List String, names.Nodup → (∀ name ∈ names, IsTagName name) →
      (∀ line ∈ d.tagLines, tagName line ∈ names) →
      (names.flatMap d.tags).Perm (d.tagLines.map tagContent) := by
  exact ⟨fun name hname => ⟨tags_eq_map hname d, hasTag_iff hname d, tag?_eq d name⟩,
    fun line hline => existsUnique_tagText? hline,
    fun names hnodup hnames hall => flatMap_tags_perm hnodup hnames hall⟩

/-- Of three names the first begins the second, the last is empty, and one tag line says nothing. -/
theorem tags_partition_prefixes :
    let d := ofText "/** Zoo.\n * @see Cage\n * @seealso\tLion,\n * @see\n * too\n * @see\n * @ Keeper */"
    let names := ["see", "seealso", ""]
    d.lines = ["Zoo.", "@see Cage", "@seealso\tLion,", "@see too", "@see", "@ Keeper"] ∧
      IsTagName "see" ∧ d.tags "see" = ["Cage", "too", ""] ∧ d.hasTag "see" = true ∧
      d.tag? "see" 2 = some "" ∧
      ("@seealso\tLion," ∈ d.tagLines ∧
        ∃! name, IsTagName name ∧ (tagText? name "@seealso\tLion,").isSome = true) ∧
      (names.Nodup ∧ (∀ name ∈ names, IsTagName name) ∧ (∀ line ∈ d.tagLines, tagName line ∈ names)) ∧
      (names.flatMap d.tags).Perm ["Cage", "Lion,", "too", "", "Keeper"] := by
  intro d names
  have hlines : d.lines =
      ["Zoo.", "@see Cage", "@seealso\tLion,", "@see too", "@see", "@ Keeper"] := by decide
  have htagLines : d.tagLines =
      ["@see Cage", "@seealso\tLion,", "@see too", "@see", "@ Keeper"] := by
    rw [tagLines, hlines]
    decide
  have hname : IsTagName "see" := by decide
  have hline : "@seealso\tLion," ∈ d.tagLines := by rw [htagLines]; decide
  have hnames : ∀ name ∈ names, IsTagName name := by decide
  have hnodup : names.Nodup := by decide
  have hall : ∀ line ∈ d.tagLines, tagName line ∈ names := by rw [htagLines]; decide
  obtain ⟨hfound, hunique, hperm⟩ := tags_partition d
  obtain ⟨htags, hhas, hnth⟩ := hfound "see" hname
  have hsee : d.tags "see" = ["Cage", "too", ""] := by
    rw [htags, htagLines]
    decide
  refine ⟨hlines, hname, hsee, hhas.mpr ⟨"@see", by rw [htagLines]; decide, by decide⟩, ?_,
    ⟨hline, hunique _ hline⟩, ⟨hnodup, hnames, hall⟩, ?_⟩
  · rw [hnth, hsee]
    decide
  · have hcontents := hperm names hnodup hnames hall
    rw [htagLines] at hcontents
    exact hcontents

end DocComment
end Reflection
