import Reflection.DocComment.TypeForm
import Reflection.Proofs.Text.Line

/-!
# What the forms of documented types are

The name of a type is made of segments with backslashes between them. A text is the array of a type when
it is the name with brackets behind it, and perhaps a line feed; it is a map when it holds one anywhere,
and then the first map in it counts, whatever stands around that. Every other text is taken as it stands.

## Main definitions

* `TypeForm.IsTypeName`: names of types.
* `TypeForm.SpellsMap`, `TypeForm.HoldsMap`: maps between two types, and the first one in a text.
* `TypeForm.properties`: what is told about a documented type.

## Main statements

* `TypeForm.takeName?_eq_some_iff`: the name at the start of a text is read whole.
* `TypeForm.mapIn?_eq_some_iff`: the first map in a text is found.
* `TypeForm.properties_ofText`: which texts have which form.
-/
namespace Reflection
namespace TypeForm

open Reflection.Text

/-- A segment of the name of a type. -/
def IsSegment (cs : List Char) : Prop :=
  ∃ c rest, cs = c :: rest ∧ startsSegment c = true ∧ ∀ d ∈ rest, continuesSegment d = true

/-- Names of types: segments with backslashes between them, and perhaps one before the first. -/
def IsTypeName (name : String) : Prop :=
  ∃ segments : List (List Char), segments ≠ [] ∧ (∀ s ∈ segments, IsSegment s) ∧
    (name.toList = ['\\'].intercalate segments ∨ name.toList = '\\' :: ['\\'].intercalate segments)

/-- The array of a type is its name with brackets behind it; a line feed may follow. -/
def IsArrayOf (s item : String) : Prop :=
  IsTypeName item ∧ (s = item ++ "[]" ∨ s = item ++ "[]\n")

/-- A map between two types, with blanks where they may stand. -/
def SpellsMap (cs : List Char) (key value : String) : Prop :=
  IsTypeName key ∧ IsTypeName value ∧ ∃ s₁ s₂ s₃ s₄ : List Char,
    (∀ s ∈ [s₁, s₂, s₃, s₄], ∀ c ∈ s, isBlank c = true) ∧
    cs = "array<".toList ++ (s₁ ++ (key.toList ++ (s₂ ++ ",".toList ++
      (s₃ ++ (value.toList ++ (s₄ ++ ">".toList))))))

/-- A text holds a map, and none begins before that one. -/
def HoldsMap (cs : List Char) (key value : String) : Prop :=
  ∃ before spelled after, cs = before ++ spelled ++ after ∧ SpellsMap spelled key value ∧
    ∀ before' spelled' after' key' value', cs = before' ++ spelled' ++ after' →
      SpellsMap spelled' key' value' → before.length ≤ before'.length

/-- Type, type of the keys and type of the items. -/
def properties (f : TypeForm) : String × Option String × Option String := (f.name, f.key?, f.value?)

/-! ## Names of types -/

/-- What may follow the first character of a name. -/
inductive NameTail : List Char → Prop
  | nil : NameTail []
  | more {c : Char} {cs : List Char} : continuesSegment c = true → NameTail cs → NameTail (c :: cs)
  | segment {c : Char} {cs : List Char} :
    startsSegment c = true → NameTail cs → NameTail ('\\' :: c :: cs)

/-- No name goes on with a text. -/
structure EndsName (rest : List Char) : Prop where
  head : ∀ c ∈ rest.head?, continuesSegment c = false
  segment : ∀ c cs, rest = '\\' :: c :: cs → startsSegment c = false

section

variable {cs rest : List Char} {c : Char} {name : String}

theorem continuesSegment_of_starts (h : startsSegment c = true) : continuesSegment c = true := by
  rw [continuesSegment, h, Bool.true_or]

theorem isBlank_of_continuesSegment (h : continuesSegment c = true) : isBlank c = false :=
  isBlank_of_nameCharacter h

theorem NameTail.append_run {run : List Char} (hrun : ∀ c ∈ run, continuesSegment c = true)
    (h : NameTail cs) : NameTail (run ++ cs) := by
  induction run with
  | nil => exact h
  | cons c run ih =>
    obtain ⟨hc, hrun⟩ := List.forall_mem_cons.mp hrun
    exact .more hc (ih hrun)

/-- Segments are a character that starts one, and a tail. -/
theorem intercalate_segments {segments : List (List Char)} (hne : segments ≠ [])
    (h : ∀ s ∈ segments, IsSegment s) :
    ∃ c tail, ['\\'].intercalate segments = c :: tail ∧ startsSegment c = true ∧ NameTail tail := by
  induction segments with
  | nil => exact absurd rfl hne
  | cons s segments ih =>
    obtain ⟨⟨c, run, rfl, hc, hrun⟩, hsegments⟩ := List.forall_mem_cons.mp h
    cases segments with
    | nil => exact ⟨c, run, List.intercalate_singleton, hc, List.append_nil run ▸ .append_run hrun .nil⟩
    | cons s' segments =>
      obtain ⟨d, tail, htail, hd, hnext⟩ := ih (List.cons_ne_nil s' segments) hsegments
      refine ⟨c, run ++ '\\' :: d :: tail, ?_, hc, .append_run hrun (.segment hd hnext)⟩
      rw [List.intercalate_cons_cons, htail, List.append_assoc]
      rfl

/-- A segment goes on with a tail, which makes up further segments. -/
theorem NameTail.exists_segments {run : List Char} (h : NameTail cs) (hrun : IsSegment run) :
    ∃ segments : List (List Char), segments ≠ [] ∧ (∀ s ∈ segments, IsSegment s) ∧
      ['\\'].intercalate segments = run ++ cs := by
  induction h generalizing run with
  | nil =>
    rw [List.append_nil]
    exact ⟨[run], List.cons_ne_nil _ _, List.forall_mem_singleton.mpr hrun,
      List.intercalate_singleton⟩
  | @more d cs hd _ ih =>
    obtain ⟨c, rest, rfl, hc, hrest⟩ := hrun
    have hlonger : IsSegment (c :: rest ++ [d]) :=
      ⟨c, rest ++ [d], rfl, hc, List.forall_mem_append.mpr ⟨hrest, List.forall_mem_singleton.mpr hd⟩⟩
    obtain ⟨segments, hne, hsegments, hspelled⟩ := ih hlonger
    refine ⟨segments, hne, hsegments, ?_⟩
    rw [hspelled, List.append_assoc, List.singleton_append]
  | @segment d cs hd _ ih =>
    obtain ⟨segments, hne, hsegments, hspelled⟩ := ih ⟨d, [], rfl, hd, nofun⟩
    obtain ⟨s, others, rfl⟩ := List.exists_cons_of_ne_nil hne
    refine ⟨run :: s :: others, List.cons_ne_nil _ _, List.forall_mem_cons.mpr ⟨hrun, hsegments⟩, ?_⟩
    rw [List.intercalate_cons_cons, hspelled, List.append_assoc]
    rfl

/-- A name is a character that starts a segment and a tail, and perhaps a backslash before them. -/
theorem isTypeName_iff :
    IsTypeName name ↔ ∃ c tail, startsSegment c = true ∧ NameTail tail ∧
      (name.toList = c :: tail ∨ name.toList = '\\' :: c :: tail) := by
  constructor
  · rintro ⟨segments, hne, hsegments, hspelled⟩
    obtain ⟨c, tail, hchars, hc, htail⟩ := intercalate_segments hne hsegments
    exact ⟨c, tail, hc, htail, hchars ▸ hspelled⟩
  · rintro ⟨c, tail, hc, htail, hspelled⟩
    obtain ⟨segments, hne, hsegments, hchars⟩ := htail.exists_segments ⟨c, [], rfl, hc, nofun⟩
    rw [List.singleton_append] at hchars
    exact ⟨segments, hne, hsegments, hchars.symm ▸ hspelled⟩

theorem moreSegments_segment (hc : startsSegment c = true) :
    moreSegments ('\\' :: c :: rest) = moreSegments rest + 2 := by
  rw [moreSegments, if_pos hc]

theorem ne_backslash_of_continues (hc : continuesSegment c = true) : c ≠ '\\' := by
  rintro rfl
  exact absurd hc (by decide)

theorem moreSegments_more (hc : continuesSegment c = true) :
    moreSegments (c :: rest) = moreSegments rest + 1 := by
  rw [moreSegments, if_pos hc]
  exact fun _ _ hslash _ => ne_backslash_of_continues hc hslash

theorem moreSegments_of_ends (h : EndsName rest) : moreSegments rest = 0 := by
  fun_cases moreSegments rest with
  | case1 c rest hc => exact absurd hc (by simp [h.segment c rest rfl])
  | case2 => rfl
  | case3 c rest _ hc => exact absurd hc (by simp [h.head c rfl])
  | case4 => rfl
  | case5 => rfl

/-- A tail is read whole. -/
theorem moreSegments_append {tail : List Char} (h : NameTail tail) (hends : EndsName rest) :
    moreSegments (tail ++ rest) = tail.length := by
  induction h with
  | nil => exact moreSegments_of_ends hends
  | more hc _ ih => rw [List.cons_append, moreSegments_more hc, ih, List.length_cons]
  | segment hc _ ih =>
    rw [List.cons_append, List.cons_append, moreSegments_segment hc, ih, List.length_cons,
      List.length_cons]

/-- What is read of a text as a tail is one, and no name goes on behind it. -/
theorem moreSegments_spec (cs : List Char) :
    NameTail (cs.take (moreSegments cs)) ∧ EndsName (cs.drop (moreSegments cs)) := by
  fun_induction moreSegments cs with
  | case1 c rest hc ih => exact ⟨.segment hc ih.1, ih.2⟩
  | case2 c rest hc =>
    refine ⟨.nil, fun d hd => Option.some.inj hd ▸ by decide, fun d ds hds => ?_⟩
    obtain ⟨rfl, -⟩ := List.cons.inj (List.cons.inj hds).2
    exact Bool.eq_false_iff.mpr hc
  | case3 c rest _ hc ih => exact ⟨.more hc ih.1, ih.2⟩
  | case4 c rest hslash hc =>
    refine ⟨.nil, fun d hd => Option.some.inj hd ▸ Bool.eq_false_iff.mpr hc, fun d ds hds => ?_⟩
    obtain ⟨rfl, rfl⟩ := List.cons.inj hds
    exact (hslash d ds rfl rfl).elim
  | case5 => exact ⟨.nil, nofun, nofun⟩

theorem nameLength?_append (hname : IsTypeName name) (hends : EndsName rest) :
    nameLength? (name.toList ++ rest) = some name.toList.length := by
  obtain ⟨c, tail, hc, htail, hspelled | hspelled⟩ := isTypeName_iff.mp hname
  · rw [hspelled, List.cons_append, nameLength?, if_pos hc, moreSegments_append htail hends,
      List.length_cons]
    exact fun _ _ hslash _ => ne_backslash_of_continues (continuesSegment_of_starts hc) hslash
  · rw [hspelled, List.cons_append, List.cons_append, nameLength?, if_pos hc,
      moreSegments_append htail hends, List.length_cons, List.length_cons]

theorem nameLength?_spec {n : Nat} (h : nameLength? cs = some n) :
    IsTypeName (String.ofList (cs.take n)) ∧ EndsName (cs.drop n) := by
  rw [isTypeName_iff, String.toList_ofList]
  fun_cases nameLength? cs with
  | case1 c rest hc =>
    rw [nameLength?, if_pos hc] at h
    obtain rfl := Option.some.inj h
    exact ⟨⟨c, _, hc, (moreSegments_spec rest).1, .inr rfl⟩, (moreSegments_spec rest).2⟩
  | case2 c rest hc =>
    rw [nameLength?, if_neg hc] at h
    exact absurd h nofun
  | case3 c rest hslash hc =>
    rw [nameLength?, if_pos hc] at h
    · obtain rfl := Option.some.inj h
      exact ⟨⟨c, _, hc, (moreSegments_spec rest).1, .inl rfl⟩, (moreSegments_spec rest).2⟩
    · exact hslash
  | case4 c rest hslash hc =>
    rw [nameLength?, if_neg hc] at h
    · exact absurd h nofun
    · exact hslash
  | case5 => exact absurd h nofun

/-- The name at the start of a text is read whole. -/
theorem takeName?_eq_some_iff :
    takeName? cs = some (name, rest) ↔
      cs = name.toList ++ rest ∧ IsTypeName name ∧ EndsName rest := by
  constructor
  · intro h
    obtain ⟨n, hn, hsplit⟩ := Option.map_eq_some_iff.mp h
    obtain ⟨rfl, rfl⟩ := Prod.mk.inj hsplit
    rw [String.toList_ofList, List.take_append_drop]
    exact ⟨rfl, nameLength?_spec hn⟩
  · rintro ⟨rfl, hname, hends⟩
    rw [takeName?, nameLength?_append hname hends, Option.map_some, List.take_left, List.drop_left,
      String.ofList_toList]

end

/-! ## Arrays -/

theorem ends_of_mark {c : Char} {rest : List Char} (hc : continuesSegment c = false)
    (hslash : c ≠ '\\') : EndsName (c :: rest) :=
  ⟨fun _ hd => Option.some.inj hd ▸ hc, fun _ _ hds => absurd (List.cons.inj hds).1 hslash⟩

theorem itemOf?_eq_some_iff {s item : String} :
    itemOf? s.toList = some item ↔ IsArrayOf s item := by
  have hchars (brackets : String) :
      s = item ++ brackets ↔ s.toList = item.toList ++ brackets.toList := by
    rw [← String.toList_append, String.toList_inj]
  rw [IsArrayOf, hchars, hchars]
  constructor
  · intro h
    obtain ⟨⟨name, rest⟩, hname, hrest⟩ := Option.bind_eq_some_iff.mp h
    obtain ⟨hsplit, hname, -⟩ := takeName?_eq_some_iff.mp hname
    simp only at hrest
    split_ifs at hrest with hbrackets
    obtain rfl := Option.some.inj hrest
    rw [hsplit]
    exact ⟨hname, hbrackets.imp (congrArg _) (congrArg _)⟩
  · rintro ⟨hname, hsplit⟩
    have hread {rest : List Char} (hs : s.toList = item.toList ++ rest)
        (hrest : rest = "[]".toList ∨ rest = "[]\n".toList) : itemOf? s.toList = some item := by
      have hends : EndsName rest := by
        rcases hrest with rfl | rfl <;> exact ends_of_mark (by decide) (by decide)
      rw [itemOf?, takeName?_eq_some_iff.mpr ⟨hs, hname, hends⟩, Option.bind_some]
      exact if_pos hrest
    rcases hsplit with hs | hs
    · exact hread hs (.inl rfl)
    · exact hread hs (.inr rfl)

/-! ## Maps -/

section

variable {cs rest : List Char} {key value : String}

theorem after?_eq_some_iff {mark : String} :
    after? mark cs = some rest ↔ cs = mark.toList ++ rest := by
  unfold after?
  constructor
  · intro h
    split_ifs at h with hfront
    obtain ⟨rest', rfl⟩ := List.isPrefixOf_iff_prefix.mp hfront
    rw [← Option.some.inj h, ← String.length_toList, List.drop_left]
  · rintro rfl
    rw [if_pos (List.isPrefixOf_iff_prefix.mpr (List.prefix_append _ _)), ← String.length_toList,
      List.drop_left]

/-- A name begins with no blank. -/
theorem IsTypeName.head {name : String} (h : IsTypeName name) (rest : List Char) :
    ∀ c ∈ (name.toList ++ rest).head?, isBlank c = false := by
  obtain ⟨c, tail, hc, -, hspelled | hspelled⟩ := isTypeName_iff.mp h <;> rw [hspelled]
  · exact fun d hd => Option.some.inj hd ▸
      isBlank_of_continuesSegment (continuesSegment_of_starts hc)
  · exact fun d hd => Option.some.inj hd ▸ by decide

theorem ends_of_blanks {s : List Char} (hs : ∀ c ∈ s, isBlank c = true) (hrest : EndsName rest) :
    EndsName (s ++ rest) := by
  cases s with
  | nil => exact hrest
  | cons c s =>
    have hc : isBlank c = true := hs c List.mem_cons_self
    refine ends_of_mark (Bool.eq_false_iff.mpr fun hname => ?_) fun hslash => ?_
    · exact Bool.false_ne_true ((isBlank_of_continuesSegment hname).symm.trans hc)
    · exact absurd hc (hslash ▸ by decide)

/-- A name and a mark are read with blanks before each of them. -/
theorem exists_read_iff {mark name : String} {m : Char} (hmark : mark.toList = [m])
    (hblank : isBlank m = false) (hends : continuesSegment m = false) (hslash : m ≠ '\\') :
    (∃ between, takeName? (cs.dropWhile isBlank) = some (name, between) ∧
        after? mark (between.dropWhile isBlank) = some rest) ↔
      IsTypeName name ∧ ∃ s s' : List Char, (∀ c ∈ s, isBlank c = true) ∧
        (∀ c ∈ s', isBlank c = true) ∧
        cs = s ++ (name.toList ++ (s' ++ (mark.toList ++ rest))) := by
  simp only [takeName?_eq_some_iff, after?_eq_some_iff]
  constructor
  · rintro ⟨between, ⟨hcs, hname, -⟩, hbetween⟩
    refine ⟨hname, cs.takeWhile isBlank, between.takeWhile isBlank,
      fun c hc => List.mem_takeWhile_imp hc, fun c hc => List.mem_takeWhile_imp hc, ?_⟩
    rw [← hbetween, List.takeWhile_append_dropWhile, ← hcs, List.takeWhile_append_dropWhile]
  · rintro ⟨hname, s, s', hs, hs', rfl⟩
    refine ⟨s' ++ (mark.toList ++ rest), ⟨?_, hname, ?_⟩, ?_⟩
    · rw [List.dropWhile_append_of_pos hs, dropWhile_of_head (hname.head _)]
    · exact ends_of_blanks hs' (hmark ▸ ends_of_mark hends hslash)
    · rw [List.dropWhile_append_of_pos hs', hmark]
      exact List.dropWhile_cons_of_neg (by simp [hblank])

/-- The map at the start of a text. -/
theorem mapAt?_eq_some_iff :
    mapAt? cs = some (key, value) ↔
      ∃ spelled after, cs = spelled ++ after ∧ SpellsMap spelled key value := by
  have hsteps : mapAt? cs = some (key, value) ↔
      ∃ r, after? "array<" cs = some r ∧ ∃ r', (∃ between,
        takeName? (r.dropWhile isBlank) = some (key, between) ∧
          after? "," (between.dropWhile isBlank) = some r') ∧ ∃ r'', ∃ between,
        takeName? (r'.dropWhile isBlank) = some (value, between) ∧
          after? ">" (between.dropWhile isBlank) = some r'' := by
    simp only [mapAt?, Option.bind_eq_bind, Option.bind_eq_some_iff, Prod.exists, Option.pure_def,
      Option.some.injEq, Prod.mk.injEq]
    constructor
    · rintro ⟨r, hr, k, between, hk, r', hr', v, between', hv, r'', hr'', rfl, rfl⟩
      exact ⟨r, hr, r', ⟨between, hk, hr'⟩, r'', between', hv, hr''⟩
    · rintro ⟨r, hr, r', ⟨between, hk, hr'⟩, r'', between', hv, hr''⟩
      exact ⟨r, hr, key, between, hk, r', hr', value, between', hv, r'', hr'', rfl, rfl⟩
  have hcomma : ",".toList = [','] := rfl
  have hclose : ">".toList = ['>'] := rfl
  rw [hsteps]
  -- Marks that follow a name are read with it, so the one before the names is opened last.
  simp only [exists_read_iff hcomma (by decide) (by decide) (by decide),
    exists_read_iff hclose (by decide) (by decide) (by decide)]
  simp only [after?_eq_some_iff, SpellsMap]
  constructor
  · rintro ⟨_, rfl, _, ⟨hkey, s₁, s₂, h₁, h₂, rfl⟩, after, hvalue, s₃, s₄, h₃, h₄, rfl⟩
    refine ⟨_, after, ?_, hkey, hvalue, s₁, s₂, s₃, s₄, ?_, rfl⟩
    · simp only [List.append_assoc]
    · simp only [List.forall_mem_cons]
      exact ⟨h₁, h₂, h₃, h₄, nofun⟩
  · rintro ⟨_, after, rfl, hkey, hvalue, s₁, s₂, s₃, s₄, hblanks, rfl⟩
    simp only [List.forall_mem_cons] at hblanks
    obtain ⟨h₁, h₂, h₃, h₄, -⟩ := hblanks
    refine ⟨_, ?_, _, ⟨hkey, s₁, s₂, h₁, h₂, rfl⟩, after, hvalue, s₃, s₄, h₃, h₄, rfl⟩
    simp only [List.append_assoc]

theorem SpellsMap.ne_nil {spelled : List Char} (h : SpellsMap spelled key value) : spelled ≠ [] := by
  obtain ⟨-, -, s₁, s₂, s₃, s₄, -, rfl⟩ := h
  exact nofun

/-- A map at the start of a text is the first one in it. -/
theorem holdsMap_of_mapAt? {found : String × String} (h : mapAt? cs = some found) :
    HoldsMap cs key value ↔ found = (key, value) := by
  obtain ⟨spelled, after, hcs, hspelled⟩ := mapAt?_eq_some_iff.mp h
  constructor
  · rintro ⟨before, spelled', after', hcs', hspelled', hfirst⟩
    have hbefore : before = [] :=
      List.eq_nil_of_length_eq_zero (Nat.le_zero.mp (hfirst [] spelled after _ _ hcs hspelled))
    rw [hbefore, List.nil_append] at hcs'
    exact Option.some.inj (h.symm.trans (mapAt?_eq_some_iff.mpr ⟨spelled', after', hcs', hspelled'⟩))
  · rintro rfl
    exact ⟨[], spelled, after, hcs, hspelled, fun _ _ _ _ _ _ _ => Nat.zero_le _⟩

/-- Without a map at its start a text holds the first map of the text behind its first character. -/
theorem holdsMap_cons {c : Char} (h : mapAt? (c :: cs) = none) :
    HoldsMap (c :: cs) key value ↔ HoldsMap cs key value := by
  -- The text in front of a map is not empty.
  have hfront {before spelled after : List Char} {key value : String}
      (hcs : c :: cs = before ++ spelled ++ after) (hspelled : SpellsMap spelled key value) :
      ∃ front, before = c :: front ∧ cs = front ++ spelled ++ after := by
    cases before with
    | nil =>
      have hsome := mapAt?_eq_some_iff.mpr ⟨spelled, after, hcs, hspelled⟩
      exact absurd (h.symm.trans hsome) nofun
    | cons d front =>
      obtain ⟨rfl, hrest⟩ := List.cons.inj hcs
      exact ⟨front, rfl, hrest⟩
  constructor
  · rintro ⟨before, spelled, after, hcs, hspelled, hfirst⟩
    obtain ⟨front, rfl, hrest⟩ := hfront hcs hspelled
    refine ⟨front, spelled, after, hrest, hspelled, fun before' spelled' after' _ _ hcs' hspelled' => ?_⟩
    have hlater := hfirst (c :: before') spelled' after' _ _ (by rw [hcs']; rfl) hspelled'
    exact Nat.le_of_succ_le_succ hlater
  · rintro ⟨front, spelled, after, hcs, hspelled, hfirst⟩
    refine ⟨c :: front, spelled, after, by rw [hcs]; rfl, hspelled, ?_⟩
    intro before' spelled' after' _ _ hcs' hspelled'
    obtain ⟨front', rfl, hrest⟩ := hfront hcs' hspelled'
    exact Nat.succ_le_succ (hfirst front' spelled' after' _ _ hrest hspelled')

/-- The first map in a text is found. -/
theorem mapIn?_eq_some_iff : mapIn? cs = some (key, value) ↔ HoldsMap cs key value := by
  induction cs with
  | nil =>
    refine ⟨nofun, ?_⟩
    rintro ⟨before, spelled, after, hcs, hspelled, -⟩
    obtain ⟨hfront, -⟩ := List.append_eq_nil_iff.mp hcs.symm
    exact absurd (List.append_eq_nil_iff.mp hfront).2 hspelled.ne_nil
  | cons c cs ih =>
    rw [mapIn?]
    cases hat : mapAt? (c :: cs) with
    | some found =>
      rw [Option.some_or, holdsMap_of_mapAt? hat]
      exact Option.some_inj
    | none => rw [Option.none_or, ih, holdsMap_cons hat]

theorem mapIn?_eq_none_iff : mapIn? cs = none ↔ ∀ key value, ¬ HoldsMap cs key value := by
  simp only [← mapIn?_eq_some_iff, Option.eq_none_iff_forall_ne_some, Prod.forall, ne_eq]

end

/-! ## Forms of texts -/

/-- A name consists of backslashes and of characters that continue a segment. -/
theorem IsTypeName.not_mem {name : String} {m : Char} (h : IsTypeName name)
    (hm : continuesSegment m = false) (hslash : m ≠ '\\') : m ∉ name.toList := by
  have hne {c : Char} (hc : continuesSegment c = true) : m ≠ c := fun hmc =>
    Bool.false_ne_true (hm.symm.trans (hmc ▸ hc))
  have htail {cs : List Char} (h : NameTail cs) : m ∉ cs := by
    induction h with
    | nil => exact List.not_mem_nil
    | more hc _ ih => exact List.not_mem_cons_of_ne_of_not_mem (hne hc) ih
    | segment hc _ ih =>
      exact List.not_mem_cons_of_ne_of_not_mem hslash
        (List.not_mem_cons_of_ne_of_not_mem (hne (continuesSegment_of_starts hc)) ih)
  obtain ⟨c, tail, hc, hnext, hspelled | hspelled⟩ := isTypeName_iff.mp h <;> rw [hspelled]
  · exact htail (.more (continuesSegment_of_starts hc) hnext)
  · exact htail (.segment hc hnext)

/-- The array of a type holds no map. -/
theorem IsArrayOf.not_holdsMap {s item key value : String} (h : IsArrayOf s item) :
    ¬ HoldsMap s.toList key value := by
  rintro ⟨before, spelled, after, hs, ⟨-, -, s₁, s₂, s₃, s₄, -, rfl⟩, -⟩
  have hmark : '<' ∈ s.toList := by
    rw [hs]
    simp
  obtain ⟨hitem, hspelled⟩ := h
  have hname : '<' ∉ item.toList := hitem.not_mem (by decide) (by decide)
  rcases hspelled with rfl | rfl <;> rw [String.toList_append] at hmark <;>
    exact (List.mem_append.mp hmark).elim hname (by decide)

/-- The form of a text, by what it spells and what it holds. -/
theorem ofText_cases (s : String) :
    (∃ item, IsArrayOf s item ∧ ofText s = .array item) ∨
      (∃ key value, HoldsMap s.toList key value ∧ ofText s = .map key value) ∨
      ((∀ item, ¬ IsArrayOf s item) ∧ (∀ key value, ¬ HoldsMap s.toList key value) ∧
        ofText s = .plain s) := by
  unfold ofText
  cases hitem : itemOf? s.toList with
  | some item => exact .inl ⟨item, itemOf?_eq_some_iff.mp hitem, rfl⟩
  | none =>
    have hnone (item : String) : ¬ IsArrayOf s item := fun h =>
      Option.some_ne_none item ((itemOf?_eq_some_iff.mpr h).symm.trans hitem)
    cases hmap : mapIn? s.toList with
    | some found => exact .inr (.inl ⟨found.1, found.2, mapIn?_eq_some_iff.mp hmap, rfl⟩)
    | none => exact .inr (.inr ⟨hnone, mapIn?_eq_none_iff.mp hmap, rfl⟩)

theorem IsArrayOf.unique {s item item' : String} (h : IsArrayOf s item) (h' : IsArrayOf s item') :
    item = item' :=
  Option.some.inj ((itemOf?_eq_some_iff.mpr h).symm.trans (itemOf?_eq_some_iff.mpr h'))

theorem HoldsMap.unique {cs : List Char} {key value key' value' : String} (h : HoldsMap cs key value)
    (h' : HoldsMap cs key' value') : key = key' ∧ value = value' :=
  Prod.mk.inj (Option.some.inj
    ((mapIn?_eq_some_iff.mpr h).symm.trans (mapIn?_eq_some_iff.mpr h')))

/-- A text is an array of a type under integers when it is the name with brackets behind it, and it is an
array of the types of the first map that it holds. Every other text is taken as it stands. -/
theorem properties_ofText (s : String) :
    (∀ key value, (ofText s).properties = ("array", some key, some value) ↔
      (key = "integer" ∧ IsArrayOf s value) ∨ HoldsMap s.toList key value) ∧
    ∀ name, (ofText s).properties = (name, none, none) ↔
      name = s ∧ (∀ item, ¬ IsArrayOf s item) ∧ ∀ key value, ¬ HoldsMap s.toList key value := by
  rcases ofText_cases s with ⟨item, hitem, hform⟩ | ⟨k, v, hmap, hform⟩ | ⟨hnoItem, hnoMap, hform⟩
  · rw [hform]
    refine ⟨fun key value => ⟨fun h => ?_, ?_⟩, fun name => ⟨nofun, fun h => absurd hitem (h.2.1 item)⟩⟩
    · cases h
      exact .inl ⟨rfl, hitem⟩
    · rintro (⟨rfl, hvalue⟩ | hmap)
      · rw [hitem.unique hvalue]
        rfl
      · exact absurd hmap hitem.not_holdsMap
  · rw [hform]
    refine ⟨fun key value => ⟨fun h => ?_, ?_⟩, fun name => ⟨nofun, fun h => absurd hmap (h.2.2 k v)⟩⟩
    · cases h
      exact .inr hmap
    · rintro (⟨-, hitem⟩ | hmap')
      · exact absurd hmap hitem.not_holdsMap
      · obtain ⟨rfl, rfl⟩ := hmap.unique hmap'
        rfl
  · rw [hform]
    refine ⟨fun key value => ⟨nofun, ?_⟩, fun name => ⟨fun h => ?_, ?_⟩⟩
    · rintro (⟨-, hitem⟩ | hmap)
      · exact absurd hitem (hnoItem value)
      · exact absurd hmap (hnoMap key value)
    · cases h
      exact ⟨rfl, hnoItem, hnoMap⟩
    · rintro ⟨rfl, -, -⟩
      rfl

-- A map inside a union stands for the union, and so does one at the end of a longer name.
example : (ofText "int|array<string, Lion>").properties = ("array", some "string", some "Lion") := by
  decide

end TypeForm
end Reflection
