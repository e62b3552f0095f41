import Reflection.DocComment.Tag
import Reflection.Proofs.Text.Line

/-!
# The variable that a tag is about

A tag for a parameter or a variable gives types, then a variable, then words about it, and blanks stand
between them. The variable is the first one that stands after a blank. Another one may stand before it,
at the start of the text or joined to other characters, and then counts among the types: the record
that is read belongs to the first variable of the text only when a blank stands before that one.

## Main definitions

* `StartsWithVariable`: a text begins with a variable.
* `Mention`, `mentions`: the variables in a text, and whether a blank stands before each.
* `Describes`: a text describes a variable.
* `IsTagLine`, `DescribedIn`: the lines that are read for a variable.

## Main statements

* `variableAt?_eq_some_iff`, `describedVariable?_eq_some_iff`, `DocComment.tagText?_eq_some_iff`: what
  the readers of a tag find.
* `DeclaresVariable.mentions_eq`: the variable that a text declares is the first one after a blank.
* `DocComment.documentation_of_variable`: where the documentation of a variable is read.
-/
namespace Reflection

open Reflection.Text

/-- Names of variables. -/
def isVariableName (name : String) : Bool :=
  match name.toList with
  | [] => false
  | c :: rest => startsVariable c && rest.all continuesVariable

/-- A text begins with a variable of a name, and other text follows. -/
structure StartsWithVariable (cs : List Char) (name : String) (after : List Char) : Prop where
  spelled : cs = '$' :: (name.toList ++ after)
  isName : isVariableName name = true
  ended : ∀ c ∈ after.head?, continuesVariable c = false

/-- A variable in a text. -/
structure Mention where
  name : String
  afterBlank : Bool
  deriving DecidableEq, Repr

/-- The variables in the text that remains, where `blank` tells whether a blank stands before it. -/
def mentionsFrom (blank : Bool) : List Char → List Mention
  | [] => []
  | c :: rest =>
    ((variableAt? (c :: rest)).map fun v => Mention.mk v.1 blank).toList ++
      mentionsFrom (isBlank c) rest

/-- The variables in a text, in order. -/
def mentions (cs : List Char) : List Mention := mentionsFrom false cs

/-- A text has a front without a variable after a blank, then blanks, and then a variable with
text behind it; `blank` tells whether a blank stands before the text. -/
structure DeclaresVariable (blank : Bool) (cs front spaces : List Char) (name : String)
    (after : List Char) : Prop where
  spelled : ∃ rest, cs = front ++ spaces ++ rest ∧ StartsWithVariable rest name after
  spaces_blank : ∀ c ∈ spaces, isBlank c = true
  spaces_ne : spaces ≠ []
  front_last : ∀ c ∈ front.getLast?, isBlank c = false
  first : ∀ m ∈ mentionsFrom blank front, m.afterBlank = false

/-- A text describes a variable: what stands before the blanks and the variable are types, and what
follows it is the description. -/
def Describes (s name : String) (r : TypeDescription) : Prop :=
  ∃ front spaces after, DeclaresVariable false s.toList front spaces name after ∧
    r = ⟨splitTypes front, descriptionAfter after⟩

/-! ## Variables at the start of a text -/

section

variable {cs after : List Char} {name : String} {c : Char}

theorem isBlank_of_continuesVariable (h : continuesVariable c = true) : isBlank c = false :=
  isBlank_of_nameCharacter h

/-- No blank belongs to a name. -/
theorem continuesVariable_of_isBlank (h : isBlank c = true) : continuesVariable c = false :=
  Bool.eq_false_iff.mpr fun hname =>
    Bool.false_ne_true ((isBlank_of_continuesVariable hname).symm.trans h)

theorem isVariableName_iff :
    isVariableName name = true ↔
      ∃ c rest, name.toList = c :: rest ∧ startsVariable c = true ∧
        ∀ d ∈ rest, continuesVariable d = true := by
  unfold isVariableName
  split
  · rename_i hnil
    simp [hnil]
  · rename_i c rest hcons
    simp [hcons]

theorem variableAt?_eq_some_iff :
    variableAt? cs = some (name, after) ↔ StartsWithVariable cs name after := by
  constructor
  · intro h
    unfold variableAt? at h
    split at h
    · rename_i c rest
      split at h
      · rename_i hstarts
        obtain ⟨rfl, rfl⟩ := Prod.mk.inj (Option.some.inj h)
        refine ⟨?_, ?_, head_dropWhile⟩
        · rw [String.toList_ofList, List.cons_append, List.takeWhile_append_dropWhile]
        · exact isVariableName_iff.mpr ⟨c, rest.takeWhile continuesVariable, String.toList_ofList, hstarts,
            fun d hd => List.mem_takeWhile_imp hd⟩
      · exact absurd h nofun
    · exact absurd h nofun
  · rintro ⟨rfl, hname, hended⟩
    obtain ⟨c, rest, hchars, hstarts, hrest⟩ := isVariableName_iff.mp hname
    obtain ⟨htake, hdrop⟩ := span_append hrest hended
    rw [hchars, List.cons_append, variableAt?, if_pos hstarts, htake, hdrop, ← hchars,
      String.ofList_toList]

/-- Two characters tell whether a text begins with a variable. -/
theorem variableAt?_eq_none_iff {d : Char} {rest : List Char} :
    variableAt? (c :: d :: rest) = none ↔ ¬ (c = '$' ∧ startsVariable d = true) := by
  by_cases hdollar : c = '$'
  · rw [hdollar, variableAt?]
    split_ifs with hstarts <;> simp [hstarts]
  · rw [variableAt?]
    · simp [hdollar]
    · exact fun _ _ hcons => hdollar (List.cons.inj hcons).1

theorem variableAt?_singleton : variableAt? [c] = none := by
  rw [variableAt?]
  exact fun _ _ hcons => absurd (List.cons.inj hcons).2 nofun

theorem variableAt?_of_isBlank {rest : List Char} (h : isBlank c = true) :
    variableAt? (c :: rest) = none := by
  have hdollar : c ≠ '$' := fun hdollar => absurd h (hdollar ▸ by decide)
  cases rest with
  | nil => exact variableAt?_singleton
  | cons d rest => exact variableAt?_eq_none_iff.mpr fun hbegins => hdollar hbegins.1

/-- Without a variable behind the blanks at its start a text begins with none. -/
theorem variableAt?_of_dropWhile (h : variableAt? (cs.dropWhile isBlank) = none) :
    variableAt? cs = none := by
  cases cs with
  | nil => rfl
  | cons c cs =>
    cases hc : isBlank c with
    | true => exact variableAt?_of_isBlank hc
    | false => rwa [List.dropWhile_cons_of_neg (by simp [hc])] at h

/-- A variable at the start of a text ends before the blanks that follow the text. -/
theorem variableAt?_append {spaces rest : List Char} (hspaces : ∀ c ∈ spaces, isBlank c = true)
    (hspacesne : spaces ≠ []) (hne : cs ≠ []) :
    variableAt? (cs ++ spaces ++ rest) =
      (variableAt? cs).map fun v => (v.1, v.2 ++ spaces ++ rest) := by
  obtain ⟨d, spaces, rfl⟩ := List.exists_cons_of_ne_nil hspacesne
  have hd : continuesVariable d = false :=
    continuesVariable_of_isBlank (hspaces d List.mem_cons_self)
  cases hread : variableAt? cs with
  | some v =>
    obtain ⟨hspelled, hname, hended⟩ := variableAt?_eq_some_iff.mp hread
    rw [Option.map_some, variableAt?_eq_some_iff]
    refine ⟨?_, hname, ?_⟩
    · rw [hspelled, List.cons_append, List.cons_append, List.append_assoc, List.append_assoc,
        List.append_assoc]
    · cases hafter : v.2 with
      | nil => exact fun c hc => Option.some.inj hc ▸ hd
      | cons e after => exact fun c hc => hended c (hafter ▸ hc)
  | none =>
    rw [Option.map_none]
    match cs, hne with
    | [c], _ =>
      refine variableAt?_eq_none_iff.mpr fun hbegins => ?_
      have hcontinues : continuesVariable d = true := by rw [continuesVariable, hbegins.2, Bool.true_or]
      exact Bool.false_ne_true (hd.symm.trans hcontinues)
    | c :: e :: rest, _ => exact variableAt?_eq_none_iff.mpr (variableAt?_eq_none_iff.mp hread)

end

/-! ## Variables in a text -/

section

variable {cs front spaces rest after : List Char} {name : String} {blank : Bool}

/-- Between blanks and what follows them no variable is mentioned. -/
theorem mentionsFrom_blanks (hspaces : ∀ c ∈ spaces, isBlank c = true) (hne : spaces ≠ []) :
    mentionsFrom blank (spaces ++ rest) = mentionsFrom true rest := by
  induction spaces generalizing blank with
  | nil => exact absurd rfl hne
  | cons c spaces ih =>
    obtain ⟨hc, hspaces⟩ := List.forall_mem_cons.mp hspaces
    rw [List.cons_append, mentionsFrom, variableAt?_of_isBlank hc, hc, Option.map_none,
      Option.toList_none, List.nil_append]
    cases spaces with
    | nil => rfl
    | cons d spaces => exact ih hspaces (List.cons_ne_nil d spaces)

/-- The variables before blanks and the variables behind them. -/
theorem mentionsFrom_append (hspaces : ∀ c ∈ spaces, isBlank c = true) (hne : spaces ≠ []) :
    mentionsFrom blank (front ++ spaces ++ rest) =
      mentionsFrom blank front ++ mentionsFrom true rest := by
  induction front generalizing blank with
  | nil => exact mentionsFrom_blanks hspaces hne
  | cons c front ih =>
    have hread : variableAt? (c :: (front ++ spaces ++ rest)) =
        (variableAt? (c :: front)).map fun v => (v.1, v.2 ++ spaces ++ rest) :=
      variableAt?_append hspaces hne (List.cons_ne_nil c front)
    rw [List.cons_append, List.cons_append, mentionsFrom, mentionsFrom, ih, hread, Option.map_map,
      List.append_assoc]
    rfl

/-- In a text without blanks no variable stands after one. -/
theorem not_afterBlank_of_solid (h : ∀ c ∈ cs, isBlank c = false) :
    ∀ m ∈ mentionsFrom false cs, m.afterBlank = false := by
  induction cs with
  | nil => exact nofun
  | cons c cs ih =>
    obtain ⟨hc, hcs⟩ := List.forall_mem_cons.mp h
    rw [mentionsFrom, hc]
    refine List.forall_mem_append.mpr ⟨fun m hm => ?_, ih hcs⟩
    obtain ⟨v, -, rfl⟩ := Option.map_eq_some_iff.mp (Option.mem_toList.mp hm)
    rfl

/-- A variable behind blanks is mentioned behind a blank. -/
theorem mem_mentionsFrom {v : String × List Char} (h : variableAt? (cs.dropWhile isBlank) = some v) :
    ⟨v.1, true⟩ ∈ mentionsFrom true cs := by
  induction cs with
  | nil => exact absurd h nofun
  | cons c cs ih =>
    rw [mentionsFrom]
    cases hc : isBlank c with
    | true =>
      rw [List.dropWhile_cons_of_pos hc] at h
      exact List.mem_append_right _ (ih h)
    | false =>
      rw [List.dropWhile_cons_of_neg (by simp [hc])] at h
      rw [h]
      exact List.mem_append_left _ (List.mem_singleton.mpr rfl)

/-- The variable that a text declares is its first one after a blank. -/
theorem DeclaresVariable.mentions_eq (h : DeclaresVariable blank cs front spaces name after) :
    ∃ later, mentionsFrom blank cs = mentionsFrom blank front ++ ⟨name, true⟩ :: later := by
  obtain ⟨rest, rfl, hbegins⟩ := h.spelled
  have hread : variableAt? ('$' :: (name.toList ++ after)) = some (name, after) :=
    variableAt?_eq_some_iff.mpr (hbegins.spelled ▸ hbegins)
  refine ⟨mentionsFrom (isBlank '$') (name.toList ++ after), ?_⟩
  rw [mentionsFrom_append h.spaces_blank h.spaces_ne, hbegins.spelled, mentionsFrom, hread]
  rfl

/-- The first variable of a text is the one that it describes, unless no blank stands before it. -/
theorem Describes.name_of_first {s : String} {r : TypeDescription} (h : Describes s name r) :
    ∀ m ∈ (mentions s.toList).head?, m.name = name ∨ m.afterBlank = false := by
  obtain ⟨front, spaces, after, hdeclares, -⟩ := h
  obtain ⟨later, hmentions⟩ := hdeclares.mentions_eq
  rw [mentions, hmentions]
  intro m hm
  cases hfront : mentionsFrom false front with
  | nil =>
    rw [hfront] at hm
    exact .inl (Option.some.inj hm ▸ rfl)
  | cons first others =>
    rw [hfront] at hm
    refine .inr (hdeclares.first m ?_)
    rw [hfront, ← Option.some.inj hm]
    exact List.mem_cons_self

end

/-! ## Reading a tag -/

section

variable {blank : Bool} {types cs front spaces rest after : List Char} {name : String}
  {r : TypeDescription} {c : Char}

theorem describedVariable?_found (hc : isBlank c = true)
    (hread : variableAt? (rest.dropWhile isBlank) = some (name, after)) :
    describedVariable? types (c :: rest) =
      some (name, ⟨splitTypes types.reverse, descriptionAfter after⟩) := by
  rw [describedVariable?, if_pos hc, hread]

theorem describedVariable?_passed
    (h : isBlank c = true → variableAt? (rest.dropWhile isBlank) = none) :
    describedVariable? types (c :: rest) = describedVariable? (c :: types) rest := by
  rw [describedVariable?]
  split_ifs with hc
  · rw [h hc]
  · rfl

/-- The first character of a text stands before what the rest of it declares, unless it is a blank
with the variable behind it. -/
theorem DeclaresVariable.cons (h : DeclaresVariable (isBlank c) cs front spaces name after)
    (hpassed : isBlank c = true → variableAt? (cs.dropWhile isBlank) = none)
    (hblank : blank = true → variableAt? (c :: cs) = none) :
    DeclaresVariable blank (c :: cs) (c :: front) spaces name after := by
  obtain ⟨rest, rfl, hbegins⟩ := h.spelled
  refine ⟨⟨rest, rfl, hbegins⟩, h.spaces_blank, h.spaces_ne, ?_, ?_⟩
  · cases front with
    | nil =>
      refine fun d hd => Option.some.inj hd ▸ Bool.eq_false_iff.mpr fun hc => ?_
      have hrest : (spaces ++ rest).dropWhile isBlank = rest := by
        rw [List.dropWhile_append_of_pos h.spaces_blank, hbegins.spelled]
        exact List.dropWhile_cons_of_neg (by decide)
      have hnone := hpassed hc
      rw [List.nil_append, hrest, variableAt?_eq_some_iff.mpr hbegins] at hnone
      exact Option.some_ne_none _ hnone
    | cons d front => exact h.front_last
  · rw [mentionsFrom]
    refine List.forall_mem_append.mpr ⟨fun m hm => ?_, h.first⟩
    obtain ⟨v, hv, rfl⟩ := Option.map_eq_some_iff.mp (Option.mem_toList.mp hm)
    refine Bool.eq_false_iff.mpr fun htrue => ?_
    have hnone := hblank htrue
    rw [← List.cons_append, ← List.cons_append,
      variableAt?_append h.spaces_blank h.spaces_ne (List.cons_ne_nil c front), hv] at hnone
    exact Option.some_ne_none _ hnone

/-- A variable is found where it is declared: no variable stands directly behind a blank that the
search has reached. -/
theorem exists_declares_of_describedVariable? (hblank : blank = true → variableAt? cs = none)
    (h : describedVariable? types cs = some (name, r)) :
    ∃ front spaces after, DeclaresVariable blank cs front spaces name after ∧
      r = ⟨splitTypes (types.reverse ++ front), descriptionAfter after⟩ := by
  induction cs generalizing types blank with
  | nil => exact absurd h nofun
  | cons c cs ih =>
    by_cases hpassed : isBlank c = true → variableAt? (cs.dropWhile isBlank) = none
    · rw [describedVariable?_passed hpassed] at h
      obtain ⟨front, spaces, after, hdeclares, hr⟩ :=
        ih (fun hc => variableAt?_of_dropWhile (hpassed hc)) h
      refine ⟨c :: front, spaces, after, hdeclares.cons hpassed hblank, ?_⟩
      rw [hr, List.reverse_cons, List.append_assoc, List.singleton_append]
    · obtain ⟨hc, hsome⟩ := Classical.not_imp.mp hpassed
      obtain ⟨⟨name', after⟩, hread⟩ := Option.ne_none_iff_exists'.mp hsome
      rw [describedVariable?_found hc hread] at h
      obtain ⟨rfl, rfl⟩ := Prod.mk.inj (Option.some.inj h)
      refine ⟨[], c :: cs.takeWhile isBlank, after,
        ⟨⟨cs.dropWhile isBlank, ?_, variableAt?_eq_some_iff.mp hread⟩, ?_, List.cons_ne_nil _ _,
          nofun, nofun⟩, ?_⟩
      · rw [List.nil_append, List.cons_append, List.takeWhile_append_dropWhile]
      · exact List.forall_mem_cons.mpr ⟨hc, fun d hd => List.mem_takeWhile_imp hd⟩
      · rw [List.append_nil]

/-- Behind a blank in front of what is declared no variable is found. -/
theorem DeclaresVariable.passed (h : DeclaresVariable blank (c :: cs) (c :: front) spaces name after)
    (hc : isBlank c = true) : variableAt? (cs.dropWhile isBlank) = none := by
  obtain ⟨rest, hspelled, -⟩ := h.spelled
  obtain rfl : cs = front ++ spaces ++ rest := (List.cons.inj hspelled).2
  have hsolid : front.dropWhile isBlank ≠ [] := by
    intro hnil
    have hblanks : ∀ d ∈ c :: front, isBlank d = true :=
      List.forall_mem_cons.mpr ⟨hc, List.dropWhile_eq_nil_iff.mp hnil⟩
    have hlast := List.getLast?_eq_some_getLast (List.cons_ne_nil c front)
    exact Bool.false_ne_true
      ((h.front_last _ hlast).symm.trans (hblanks _ (List.getLast_mem (List.cons_ne_nil c front))))
  have hdrop : (front ++ spaces ++ rest).dropWhile isBlank =
      front.dropWhile isBlank ++ spaces ++ rest := by
    rw [List.append_assoc, List.dropWhile_append, if_neg (by simpa using hsolid), List.append_assoc]
  rw [hdrop, variableAt?_append h.spaces_blank h.spaces_ne hsolid, Option.map_eq_none_iff]
  refine Option.eq_none_iff_forall_not_mem.mpr fun v hv => ?_
  refine Bool.false_ne_true (h.first ⟨v.1, true⟩ ?_).symm
  rw [mentionsFrom, hc]
  exact List.mem_append_right _ (mem_mentionsFrom hv)

theorem DeclaresVariable.tail (h : DeclaresVariable blank (c :: cs) (c :: front) spaces name after) :
    DeclaresVariable (isBlank c) cs front spaces name after := by
  obtain ⟨rest, hspelled, hbegins⟩ := h.spelled
  refine ⟨⟨rest, (List.cons.inj hspelled).2, hbegins⟩, h.spaces_blank, h.spaces_ne, ?_, ?_⟩
  · cases front with
    | nil => exact nofun
    | cons d front => exact h.front_last
  · intro m hm
    exact h.first m (by rw [mentionsFrom]; exact List.mem_append_right _ hm)

/-- What is declared is found. -/
theorem DeclaresVariable.describedVariable?_eq (h : DeclaresVariable blank cs front spaces name after) :
    describedVariable? types cs =
      some (name, ⟨splitTypes (types.reverse ++ front), descriptionAfter after⟩) := by
  induction front generalizing types blank cs with
  | nil =>
    obtain ⟨rest, rfl, hbegins⟩ := h.spelled
    obtain ⟨c, spaces, rfl⟩ := List.exists_cons_of_ne_nil h.spaces_ne
    obtain ⟨hc, hspaces⟩ := List.forall_mem_cons.mp h.spaces_blank
    have hrest : (spaces ++ rest).dropWhile isBlank = rest := by
      rw [List.dropWhile_append_of_pos hspaces, hbegins.spelled]
      exact List.dropWhile_cons_of_neg (by decide)
    rw [List.nil_append, List.cons_append, List.append_nil]
    exact describedVariable?_found hc (hrest.symm ▸ variableAt?_eq_some_iff.mpr hbegins)
  | cons c front ih =>
    obtain ⟨rest, rfl, -⟩ := h.spelled
    rw [List.cons_append, List.cons_append] at h ⊢
    rw [describedVariable?_passed h.passed, ih h.tail, List.reverse_cons, List.append_assoc,
      List.singleton_append]

/-- The reader of a tag finds what the text describes. -/
theorem describedVariable?_eq_some_iff {s : String} :
    describedVariable? [] s.toList = some (name, r) ↔ Describes s name r := by
  constructor
  · intro h
    exact exists_declares_of_describedVariable? (fun hfalse => absurd hfalse Bool.false_ne_true) h
  · rintro ⟨front, spaces, after, hdeclares, rfl⟩
    exact hdeclares.describedVariable?_eq

end

namespace DocComment

/-- A line is the at sign, a name, blanks, and a text, where blanks stand before the text if there
is any. -/
structure IsTagLine (name line text : String) : Prop where
  spelled : ∃ spaces, line.toList = '@' :: (name.toList ++ spaces ++ text.toList) ∧
    (∀ c ∈ spaces, isBlank c = true) ∧ (spaces = [] → text = "")
  head : ∀ c ∈ text.toList.head?, isBlank c = false

/-- Lines are read for a variable: the first line with a tag that describes the variable is taken. -/
def DescribedIn (lines : List String) (tag name : String) (r : TypeDescription) : Prop :=
  ∃ earlier line later text, lines = earlier ++ line :: later ∧ IsTagLine tag line text ∧
    Describes text name r ∧
    ∀ line' ∈ earlier, ∀ text' r', IsTagLine tag line' text' → ¬ Describes text' name r'

theorem tagText?_eq_some_iff {name line text : String} :
    tagText? name line = some text ↔ IsTagLine name line text := by
  have htag : ("@" ++ name).toList = '@' :: name.toList := by
    rw [String.toList_append]
    rfl
  have hlength : ("@" ++ name).length = ('@' :: name.toList).length := by
    rw [← htag, String.length_toList]
  simp only [tagText?, htag, hlength]
  constructor
  · intro h
    split_ifs at h with hfront hrest
    obtain ⟨rest, hline⟩ := List.isPrefixOf_iff_prefix.mp hfront
    rw [← hline, List.drop_left] at h hrest
    rw [← Option.some.inj h]
    refine ⟨⟨rest.takeWhile isBlank, ?_, fun c hc => List.mem_takeWhile_imp hc, fun hnil => ?_⟩, ?_⟩
    · rw [← hline, String.toList_ofList, List.append_assoc, List.takeWhile_append_dropWhile]
      rfl
    · cases rest with
      | nil => rfl
      | cons c rest =>
        have hc : isBlank c = true := hrest
        rw [List.takeWhile_cons_of_pos hc] at hnil
        exact absurd hnil (List.cons_ne_nil c _)
    · rw [String.toList_ofList]
      exact head_dropWhile
  · rintro ⟨⟨spaces, hline, hspaces, hempty⟩, hhead⟩
    rw [List.append_assoc, ← List.cons_append] at hline
    have hrest : (spaces ++ text.toList).head?.all isBlank = true := by
      cases spaces with
      | nil =>
        rw [hempty rfl]
        rfl
      | cons c spaces => exact hspaces c List.mem_cons_self
    rw [hline, if_pos (List.isPrefixOf_iff_prefix.mpr (List.prefix_append _ _)), List.drop_left,
      if_pos hrest, List.dropWhile_append_of_pos hspaces, dropWhile_of_head hhead,
      String.ofList_toList]

/-- What a line gives under a tag for a variable. -/
theorem tagRecord_eq_some_iff {tag name line : String} {r : TypeDescription} :
    ((tagText? tag line).bind fun s =>
        ((describedVariable? [] s.toList).filter (·.1 == name)).map Prod.snd) = some r ↔
      ∃ text, IsTagLine tag line text ∧ Describes text name r := by
  rw [Option.bind_eq_some_iff]
  refine exists_congr fun text => and_congr tagText?_eq_some_iff ?_
  rw [Option.map_eq_some_iff, ← describedVariable?_eq_some_iff]
  constructor
  · rintro ⟨⟨name', r'⟩, hfilter, rfl⟩
    obtain ⟨hread, hname⟩ := Option.filter_eq_some_iff.mp hfilter
    obtain rfl : name' = name := eq_of_beq hname
    exact hread
  · intro hread
    exact ⟨(name, r), Option.filter_eq_some_iff.mpr ⟨hread, BEq.rfl⟩, rfl⟩

theorem findSome?_filterMap {α β γ : Type} (f : α → Option β) (g : β → Option γ) (xs : List α) :
    (xs.filterMap f).findSome? g = xs.findSome? fun x => (f x).bind g := by
  induction xs with
  | nil => rfl
  | cons x xs ih =>
    cases hx : f x with
    | none => rw [List.filterMap_cons_none hx, List.findSome?_cons, hx, ih, Option.bind_none]
    | some y => rw [List.filterMap_cons_some hx, List.findSome?_cons, List.findSome?_cons, hx, ih,
        Option.bind_some]

/-- Documentation is read from the first line that describes the variable. -/
theorem described?_eq_some_iff {d : DocComment} {tag name : String} {r : TypeDescription} :
    d.described? tag name = some r ↔ DescribedIn d.lines tag name r := by
  rw [described?, tags, findSome?_filterMap, List.findSome?_eq_some_iff]
  constructor
  · rintro ⟨earlier, line, later, hlines, hline, hearlier⟩
    obtain ⟨text, htag, hdescribes⟩ := tagRecord_eq_some_iff.mp hline
    refine ⟨earlier, line, later, text, hlines, htag, hdescribes, ?_⟩
    intro line' hline' text' r' htag' hdescribes'
    have hsome := tagRecord_eq_some_iff.mpr ⟨text', htag', hdescribes'⟩
    exact Option.some_ne_none r' (hsome.symm.trans (hearlier line' hline'))
  · rintro ⟨earlier, line, later, text, hlines, htag, hdescribes, hearlier⟩
    refine ⟨earlier, line, later, hlines, tagRecord_eq_some_iff.mpr ⟨text, htag, hdescribes⟩, ?_⟩
    intro line' hline'
    refine Option.eq_none_iff_forall_ne_some.mpr fun r' hr' => ?_
    obtain ⟨text', htag', hdescribes'⟩ := tagRecord_eq_some_iff.mp hr'
    exact hearlier line' hline' text' r' htag' hdescribes'

/-- The documentation of a parameter or a variable is read from the first line with the tag whose first
variable after a blank has the name. It is the first variable of the line, unless no blank stands
before that one. -/
theorem documentation_of_variable (d : DocComment) (name : String) (r : TypeDescription) :
    (d.parameterDoc? name = some r ↔ DescribedIn d.lines "param" name r) ∧
      (name ≠ "" → (d.variableDoc? name = some r ↔ DescribedIn d.lines "var" name r)) ∧
      ∀ text, Describes text name r →
        ∀ m ∈ (mentions text.toList).head?, m.name = name ∨ m.afterBlank = false := by
  refine ⟨described?_eq_some_iff, fun hname => ?_, fun text h => h.name_of_first⟩
  rw [variableDoc?, if_neg hname]
  exact described?_eq_some_iff

/-- A variable that is joined to an ampersand counts among the types of another one. -/
theorem documentation_of_variable_joined :
    "lion" ≠ "" ∧
      DescribedIn ["@var Cage &$cage home of $lion now"] "var" "lion"
        ⟨["Cage &$cage home of"], "now"⟩ ∧
      Describes "Cage &$cage home of $lion now" "lion" ⟨["Cage &$cage home of"], "now"⟩ ∧
      ∀ m ∈ (mentions "Cage &$cage home of $lion now".toList).head?,
        m.name = "lion" ∨ m.afterBlank = false :=
  have hread := documentation_of_variable ⟨["@var Cage &$cage home of $lion now"]⟩ "lion"
    ⟨["Cage &$cage home of"], "now"⟩
  have hdescribes := describedVariable?_eq_some_iff.mp (by decide)
  ⟨by decide, (hread.2.1 (by decide)).mp (by decide), hdescribes, hread.2.2 _ hdescribes⟩

-- A variable without a type stands after no blank either.
example :
    (ofText "/** @param $cage Home of $lion */").parameterDoc? "lion" =
      some ⟨["$cage Home of"], ""⟩ := by decide

end DocComment
end Reflection
