import Mathlib
import Reflection.Proofs.Class.Lineage
import Reflection.Proofs.Field.Request

/-!
# Inherited fields

A class inherits the fields of the classes that its parents lead to. Where the lineage of a class is
more than these, the fields of the classes that are left out are neither found nor listed, and no
request reaches them, though methods are looked for in the whole lineage.

## Main definitions

* `ClassTable.Nearest`: a class of a lineage is the nearest one that declares a field under its name.

## Main statements

* `ClassTable.mem_fields_iff`: the fields that are listed are those that are found.
* `ClassTable.Defined.inherits_iff`: which fields of the classes of a lineage are found, listed and
  reached.
-/
namespace Reflection

theorem Field.publicName_publicName (name : String) :
    publicName (publicName name) = publicName name := by
  simp [publicName, Text.trimStart, List.dropWhile_idempotent]

@[simp] theorem Field.publicName_name (f : Field) : publicName f.name = f.name :=
  publicName_publicName f.declared

namespace ClassTable

variable {t : ClassTable} {c a : ClassId} {name : String} {f : Field}

/-! ## Tables of fields -/

/-- Under a key, a table with more fields has the field that it had, or else the first new one. -/
theorem find?_foldl_addField (fields : Table String Field) (fs : List Field) (key : String) :
    Table.find? (fs.foldl addField fields) key =
      (Table.find? fields key).or (fs.find? (·.name == key)) := by
  induction fs generalizing fields with
  | nil => simp
  | cons f rest ih =>
    rw [List.foldl_cons, ih, List.find?_cons, addField]
    by_cases hname : f.name = key
    · subst hname
      cases hfound : Table.find? fields f.name with
      | none => simp [Table.contains, hfound]
      | some g => simp [Table.contains, hfound]
    · have hkey : (f.name == key) = false := by simpa using hname
      rw [hkey]
      split_ifs
      · rfl
      · rw [Table.find?_insert, if_neg hname]

/-- A table that is filled with fields has one entry a name. -/
theorem nodup_keys_foldl_addField {fields : Table String Field} {fs : List Field}
    (h : (Table.keys fields).Nodup) : (Table.keys (fs.foldl addField fields)).Nodup := by
  induction fs generalizing fields with
  | nil => exact h
  | cons f rest ih =>
    refine ih ?_
    unfold addField
    split_ifs with hcontains
    · exact h
    · rw [Table.contains_iff_mem_keys] at hcontains
      rw [Table.keys_insert, if_neg hcontains]
      exact List.nodup_append.mpr ⟨h, by simp, by grind⟩

theorem nodup_keys_ownFields (t : ClassTable) (c : ClassId) :
    (Table.keys (t.ownFields c)).Nodup := by
  unfold ownFields
  split
  · exact List.nodup_nil
  · exact nodup_keys_foldl_addField List.nodup_nil

/-- A table with one field a name holds the fields that are found in it. -/
theorem Listed.mem_values_iff {fields : Table String Field} (h : Listed fields)
    (hnodup : (Table.keys fields).Nodup) :
    f ∈ Table.values fields ↔ Table.find? fields f.name = some f := by
  constructor
  · intro hf
    obtain ⟨⟨key, g⟩, he, rfl⟩ := List.mem_map.mp hf
    have hname : g.name = key := (h _ he).1
    exact hname ▸ Table.find?_of_mem hnodup (hname ▸ he)
  · intro hf
    exact List.mem_map_of_mem (Table.mem_of_find? hf)

/-- Of the fields of a kind in a table, the first one under a name is the one that is found there. -/
theorem Listed.find?_filter_values {fields : Table String Field} (h : Listed fields)
    (hnodup : (Table.keys fields).Nodup) (q : Field → Bool) (key : String) :
    ((Table.values fields).filter q).find? (·.name == key) =
      (Table.find? fields key).filter q := by
  cases hfound : ((Table.values fields).filter q).find? (·.name == key) with
  | some f =>
    obtain ⟨hmem, hq⟩ := List.mem_filter.mp (List.mem_of_find?_eq_some hfound)
    have hname : f.name = key := by simpa using List.find?_some hfound
    rw [← hname, (h.mem_values_iff hnodup).mp hmem]
    exact (Option.filter_eq_some_iff.mpr ⟨rfl, hq⟩).symm
  | none =>
    refine (Option.filter_eq_none_iff.mpr fun f hf hq => ?_).symm
    have hname := (h.find? hf).1
    have hmem : f ∈ (Table.values fields).filter q :=
      List.mem_filter.mpr ⟨(h.mem_values_iff hnodup).mpr (hname ▸ hf), hq⟩
    exact List.find?_eq_none.mp hfound f hmem (by simpa using hname)

theorem findField?_eq (t : ClassTable) (c : ClassId) (name : String) :
    t.findField? c name = (Table.find? (t.ownFields c) (Field.publicName name)).or
      ((t.ancestors c).findSome? (t.heritable? (Field.publicName name))) := by
  unfold findField?
  dsimp only
  cases Table.find? (t.ownFields c) (Field.publicName name) <;> rfl

/-- The fields that a class inherits unless they are declared again: those of its ancestors that are not
private. -/
def heritage (t : ClassTable) (c : ClassId) : List Field :=
  (t.ancestors c).flatMap fun a => (Table.values (t.ownFields a)).filter (!·.isPrivate)

/-- All fields of a class, by name. -/
def fieldTable (t : ClassTable) (c : ClassId) : Table String Field :=
  (t.heritage c).foldl addField (t.ownFields c)

theorem fields_eq_values (t : ClassTable) (c : ClassId) :
    t.fields c = Table.values (t.fieldTable c) := rfl

theorem listed_fieldTable (t : ClassTable) (c : ClassId) : Listed (t.fieldTable c) := by
  refine (listed_ownFields t c).foldl_addField fun f hf => ?_
  obtain ⟨a, -, hf⟩ := List.mem_flatMap.mp hf
  exact (listed_ownFields t a).isNew_of_mem_values (List.mem_filter.mp hf).1

theorem nodup_keys_fieldTable (t : ClassTable) (c : ClassId) :
    (Table.keys (t.fieldTable c)).Nodup :=
  nodup_keys_foldl_addField (nodup_keys_ownFields t c)

/-- Among all fields of a class a name means what it means to the class. -/
theorem find?_fieldTable (t : ClassTable) (c : ClassId) (name : String) :
    Table.find? (t.fieldTable c) (Field.publicName name) = t.findField? c name := by
  rw [findField?_eq, fieldTable, find?_foldl_addField, heritage, List.find?_flatMap]
  congr 2
  funext a
  exact (listed_ownFields t a).find?_filter_values (nodup_keys_ownFields t a) _ _

/-- The fields that are listed are those that are found under their names. -/
theorem mem_fields_iff : f ∈ t.fields c ↔ t.findField? c f.name = some f := by
  rw [fields_eq_values, (listed_fieldTable t c).mem_values_iff (nodup_keys_fieldTable t c),
    ← find?_fieldTable, Field.publicName_name]

/-- A name under which nothing is found for a class is found for none that its parents lead to, unless
that class declares it. -/
theorem findField?_eq_none {b : ClassId} (hnone : t.findField? c name = none)
    (hb : b ∈ c :: t.ancestors c) (hown : Table.find? (t.ownFields b) (Field.publicName name) = none) :
    t.findField? b name = none := by
  rw [findField?_eq, hown, Option.none_or, List.findSome?_eq_none_iff]
  rw [findField?_eq, Option.or_eq_none_iff, List.findSome?_eq_none_iff] at hnone
  intro a ha
  rcases List.mem_cons.mp ((suffix_ancestors hb).subset (List.mem_cons_of_mem b ha)) with rfl | ha
  · rw [heritable?, hnone.1, Option.filter_none]
  · exact hnone.2 a ha

/-! ## Owners -/

/-- The field that a class declares is its own. -/
theorem Defined.owner_eq (h : t.Defined) (hf : Table.find? (t.ownFields c) name = some f) :
    f.owner.id = c := by
  unfold ownFields at hf
  cases hr : t.record? c with
  | none =>
    rw [hr] at hf
    cases hf
  | some r =>
    rw [hr] at hf
    dsimp only at hf
    rw [find?_foldl_addField] at hf
    have hmem := List.mem_of_find?_eq_some hf
    obtain ⟨_, -, rfl⟩ := List.mem_map.mp hmem
    exact h.id_eq hr

/-- A field that a class does not declare is declared by one of the classes that its parents lead to,
and not private. -/
theorem findField?_cases (h : t.findField? c name = some f) :
    Table.find? (t.ownFields c) (Field.publicName name) = some f ∨
      Table.find? (t.ownFields c) (Field.publicName name) = none ∧ f.isPrivate = false ∧
        ∃ a ∈ t.ancestors c, Table.find? (t.ownFields a) (Field.publicName name) = some f := by
  rw [findField?_eq] at h
  rcases Option.or_eq_some_iff.mp h with hown | ⟨hown, hinherited⟩
  · exact .inl hown
  · obtain ⟨a, ha, hfind⟩ := List.exists_of_findSome?_eq_some hinherited
    obtain ⟨hfind, hprivate⟩ := Option.filter_eq_some_iff.mp hfind
    exact .inr ⟨hown, by simpa using hprivate, a, ha, hfind⟩

/-- What is found for a class belongs to it or to a class that its parents lead to. -/
theorem Defined.owner_of_findField (h : t.Defined) (hf : t.findField? c name = some f) :
    f.owner.id ∈ c :: t.ancestors c := by
  rcases findField?_cases hf with hown | ⟨-, -, a, ha, hfind⟩
  · rw [h.owner_eq hown]
    exact List.mem_cons_self
  · rw [h.owner_eq hfind]
    exact List.mem_cons_of_mem c ha

/-- What is located for a class belongs to it or to a class that its parents lead to. -/
theorem Defined.owner_of_locate (h : t.Defined) {inherited : Bool}
    (hf : t.locate? c name inherited = some f) : f.owner.id ∈ c :: t.ancestors c := by
  obtain ⟨level, hlevel, hf⟩ := List.exists_of_findSome?_eq_some hf
  have hmem : level ∈ c :: t.ancestors c := by
    cases inherited with
    | true => exact hlevel
    | false =>
      rw [List.mem_singleton.mp hlevel]
      exact List.mem_cons_self
  exact (suffix_ancestors hmem).subset (h.owner_of_findField hf)

/-! ## The nearest field under a name -/

/-- A class of a lineage declares a field, and no nearer class declares one under its name. -/
def Nearest (t : ClassTable) (c a : ClassId) (f : Field) : Prop :=
  ∃ before after, t.lineage c = before ++ a :: after ∧
    Table.find? (t.ownFields a) f.name = some f ∧
    ∀ b ∈ before, Table.find? (t.ownFields b) f.name = none

/-- What precedes an element that stands in a list once is what stands before it. -/
theorem mem_of_precedes {α : Type} {x y : α} {before after : List α}
    (h : [y, x].Sublist (before ++ x :: after)) (hnodup : (before ++ x :: after).Nodup) :
    y ∈ before := by
  induction before with
  | nil =>
    obtain ⟨hnotin, -⟩ := List.nodup_cons.mp hnodup
    cases h with
    | cons _ h => exact absurd (h.subset (List.mem_cons_of_mem y List.mem_cons_self)) hnotin
    | cons_cons _ h => exact absurd (h.subset List.mem_cons_self) hnotin
  | cons w rest ih =>
    cases h with
    | cons _ h => exact List.mem_cons_of_mem w (ih h (List.nodup_cons.mp hnodup).2)
    | cons_cons _ h => exact List.mem_cons_self

theorem findSome?_of_split {α β : Type} {g : α → Option β} {x : α} {v : β} {l before after : List α}
    (hl : l = before ++ x :: after) (hbefore : ∀ y ∈ before, g y = none) (hx : g x = some v) :
    l.findSome? g = some v := by
  rw [hl, List.findSome?_append, List.findSome?_eq_none_iff.mpr hbefore, Option.none_or,
    List.findSome?_cons, hx]

namespace Nearest

variable (hnear : t.Nearest c a f) (h : t.Defined) (hc : c < t.classes.length)

include hnear h hc

/-- The parents of a class pass the nearer classes before they reach the nearest one. -/
theorem exists_split (ha : a ∈ c :: t.ancestors c) :
    ∃ before after, c :: t.ancestors c = before ++ a :: after ∧
      ∀ b ∈ before, Table.find? (t.ownFields b) f.name = none := by
  obtain ⟨nearer, farther, hlineage, -, hnone⟩ := hnear
  obtain ⟨before, after, hsplit⟩ := List.append_of_mem ha
  obtain ⟨tail, hordered⟩ := h.ordered hc
  have hsub := h.sublist_lineage hc
  have hnodup := hordered.nodup_lineage
  rw [hsplit, hlineage] at hsub
  rw [hlineage] at hnodup
  refine ⟨before, after, hsplit, fun b hb => hnone b (mem_of_precedes ?_ hnodup)⟩
  have hprecedes : [b, a].Sublist (before ++ a :: after) :=
    (List.singleton_sublist.mpr hb).append (List.singleton_sublist.mpr List.mem_cons_self)
  exact hprecedes.trans hsub

/-- A class that is not the nearest one to declare a field declares none under its name. -/
theorem eq_or_none : a = c ∨ Table.find? (t.ownFields c) f.name = none := by
  obtain ⟨before, after, hlineage, -, hnone⟩ := hnear
  obtain ⟨tail, hordered⟩ := h.ordered hc
  rw [hordered.lineage] at hlineage
  cases before with
  | nil => exact .inl (List.head_eq_of_cons_eq hlineage).symm
  | cons b rest =>
    refine .inr (hnone c ?_)
    rw [List.head_eq_of_cons_eq hlineage]
    exact List.mem_cons_self

omit h hc in
theorem declares : Table.find? (t.ownFields a) f.name = some f := by
  obtain ⟨_, _, -, hdeclares, -⟩ := hnear
  exact hdeclares

/-- Unless it is private, the field of the nearest class is found where the parents lead to it. -/
theorem findField?_iff (hf : f.isPrivate = false) :
    t.findField? c f.name = some f ↔ a ∈ c :: t.ancestors c := by
  constructor
  · intro hfound
    exact h.owner_eq hnear.declares ▸ h.owner_of_findField hfound
  · intro ha
    rw [findField?_eq, Field.publicName_name]
    rcases hnear.eq_or_none h hc with rfl | hnone
    · rw [hnear.declares, Option.some_or]
    · obtain ⟨before, after, hsplit, hbefore⟩ := hnear.exists_split h hc ha
      have hinherited : (c :: t.ancestors c).findSome? (t.heritable? f.name) = some f := by
        refine findSome?_of_split hsplit (fun b hb => ?_) ?_
        · rw [heritable?, hbefore b hb, Option.filter_none]
        · rw [heritable?, hnear.declares]
          exact Option.filter_eq_some_iff.mpr ⟨rfl, by simpa using hf⟩
      have hown : t.heritable? f.name c = none := by rw [heritable?, hnone, Option.filter_none]
      rw [List.findSome?_cons, hown] at hinherited
      rw [hnone, Option.none_or]
      exact hinherited

/-- The field of the nearest class is located where the parents lead to it and, if it is private and
not of the class itself, nothing is found under its name before it. -/
theorem locate?_iff : t.locate? c f.name true = some f ↔
    a ∈ c :: t.ancestors c ∧ (f.isPrivate = true → a = c ∨ t.findField? c f.name = none) := by
  have hlocate : t.locate? c f.name true = (c :: t.ancestors c).findSome? (t.findField? · f.name) :=
    rfl
  have hfirst (g : Field) (hg : t.findField? c f.name = some g) :
      t.locate? c f.name true = some g := by
    rw [hlocate, List.findSome?_cons, hg]
  constructor
  · intro hlocated
    refine ⟨h.owner_eq hnear.declares ▸ h.owner_of_locate hlocated, fun hprivate => ?_⟩
    refine (hnear.eq_or_none h hc).imp id fun hnone => ?_
    cases hfound : t.findField? c f.name with
    | none => rfl
    | some g =>
      -- What is found for the class would be located first, and it is not private.
      cases hlocated.symm.trans (hfirst g hfound)
      rcases findField?_cases hfound with hown | ⟨-, hpublic, -⟩
      · rw [Field.publicName_name, hnone] at hown
        cases hown
      · rw [hpublic] at hprivate
        cases hprivate
  · rintro ⟨ha, hprivate⟩
    cases hf : f.isPrivate with
    | false => exact hfirst f ((hnear.findField?_iff h hc hf).mpr ha)
    | true =>
      rcases hprivate hf with rfl | hnone
      · refine hfirst f ?_
        rw [findField?_eq, Field.publicName_name, hnear.declares, Option.some_or]
      · obtain ⟨before, after, hsplit, hbefore⟩ := hnear.exists_split h hc ha
        rw [hlocate]
        refine findSome?_of_split hsplit (fun b hb => ?_) ?_
        · refine findField?_eq_none hnone (hsplit ▸ List.mem_append_left _ hb) ?_
          rw [Field.publicName_name, hbefore b hb]
        · rw [findField?_eq, Field.publicName_name, hnear.declares, Option.some_or]

end Nearest
/-! ## Requests -/

variable {verbs : Verbs} {flags : AccessFlags}

theorem exposed_eq_expose (hhidden : flags.exposesHidden = true) (hf : f.IsNew) :
    flags.exposed f = f.expose := by
  unfold AccessFlags.exposed
  cases hpublic : f.isPublic with
  | true =>
    have haccessible : f.accessible = true := hf.trans hpublic
    simp [Field.expose, ← haccessible]
  | false => simp [hhidden]

/-- New handles on fields are the same if they are the same once they are exposed. -/
theorem eq_of_expose_eq {g : Field} (hf : f.IsNew) (hg : g.IsNew) (h : f.expose = g.expose) :
    f = g := by
  obtain ⟨owner, declared, hint, accessible⟩ := f
  obtain ⟨owner', declared', hint', accessible'⟩ := g
  simp only [Field.expose, Field.mk.injEq, and_true] at h
  obtain ⟨rfl, rfl, rfl⟩ := h
  rw [Field.mk.injEq]
  exact ⟨rfl, rfl, rfl, hf.trans hg.symm⟩

/-- A request that exposes hidden fields reaches the field that is located, and no other. -/
theorem exists_binding_iff (hhidden : flags.exposesHidden = true) (hf : f.IsNew) :
    (∃ b, t.bindName verbs c name flags = .ok b ∧ b.field? = some f.expose) ↔
      t.locate? c name flags.exposesInherited = some f := by
  constructor
  · rintro ⟨b, hb, hfield⟩
    rw [eq_choose_of_bind hb, choose, Binding.field?_ofParts] at hfield
    obtain ⟨g, hg, hexpose⟩ := Option.map_eq_some_iff.mp hfield
    have hnew := (locate?_spec hg).2
    rw [exposed_eq_expose hhidden hnew] at hexpose
    rw [hg, eq_of_expose_eq hnew hf hexpose]
  · intro hlocated
    have hfield : (t.choose verbs c (Field.publicName name)
        (t.locate? c name flags.exposesInherited) flags).field? = some f.expose := by
      rw [choose, Binding.field?_ofParts, hlocated, Option.map_some, exposed_eq_expose hhidden hf]
    refine ⟨_, ?_, hfield⟩
    rw [bindName_eq, AccessFlags.check]
    simp [Binding.canRead, Binding.canWrite, Binding.isAccessible, hfield]

/-- The parents of a class, followed one after the other, are classes of its lineage, in its order, and
they are all of it just where each class of the lineage has the rest of it for its own lineage. A field
of the lineage that no nearer class declares again is found, listed and reached by requests just where
the parents lead to its class. A private one is not found but for the class itself; it is reached where
nothing else is found under its name. -/
theorem Defined.inherits_iff (h : t.Defined) (hc : c < t.classes.length) :
    (c :: t.ancestors c).Sublist (t.lineage c) ∧
      (t.ancestors c = (t.lineage c).tail ↔ t.Chained c) ∧
      ∀ a f, t.Nearest c a f →
        (f.isPrivate = false →
          (t.findField? c f.name = some f ↔ a ∈ c :: t.ancestors c) ∧
          (f ∈ t.fields c ↔ a ∈ c :: t.ancestors c)) ∧
        ∀ verbs flags, flags.exposesInherited = true → flags.exposesHidden = true →
          ((∃ b, t.bindName verbs c f.name flags = .ok b ∧ b.field? = some f.expose) ↔
            a ∈ c :: t.ancestors c ∧
              (f.isPrivate = true → a = c ∨ t.findField? c f.name = none)) := by
  refine ⟨h.sublist_lineage hc, h.ancestors_eq_tail_iff hc, fun a f hnear => ⟨fun hf => ?_, ?_⟩⟩
  · rw [mem_fields_iff]
    exact ⟨hnear.findField?_iff h hc hf, hnear.findField?_iff h hc hf⟩
  · intro verbs flags hinherited hhidden
    have hnew : f.IsNew := ((listed_ownFields t a).find? hnear.declares).2
    rw [exists_binding_iff hhidden hnew, hinherited, hnear.locate?_iff h hc]

/-- A class without entries, with fields of no known type. -/
def plainClass (id : ClassId) (name : String) (ancestors : List ClassId) (fields : List String) :
    ClassRecord where
  identity := ⟨id, name, "zoo", name⟩
  hints := fields.map (·, .none)
  slots := none
  entries := []
  lineage := id :: ancestors
  layout := none
  isOpen := true
  isReferable := true

/-- The first ones of the classes `A` with a field `a`, `B` with a field `b`, and `C` with the bases `A`
and `B`. -/
def zoo (n : Nat) : ClassTable where
  classes :=
    [plainClass 0 "A" [] ["a"], plainClass 1 "B" [] ["b"], plainClass 2 "C" [0, 1] []].take n
  members := [(("zoo", "A"), 0), (("zoo", "B"), 1), (("zoo", "C"), 2)].take n

theorem defined_zoo : (zoo 3).Defined := by
  have hA : (zoo 0).define { name := "A", space := "zoo", path := "A", hints := [("a", .none)] } =
      .ok (zoo 1, 0) := by cbv
  have hB : (zoo 1).define { name := "B", space := "zoo", path := "B", hints := [("b", .none)] } =
      .ok (zoo 2, 1) := by cbv
  have hC : (zoo 2).define { name := "C", space := "zoo", path := "C", bases := [0, 1] } =
      .ok (zoo 3, 2) := by cbv
  exact .define (.define (.define .empty (by simp) hA) (by simp) hB) (by decide) hC

/-- The field `b` of the class `B`. -/
def fieldOfB : Field := ⟨⟨1, "B", "zoo", "B"⟩, "b", .none, true⟩

/-- The class `C` has `B` in its lineage, but the field of `B` is neither found nor listed nor reached. -/
theorem inherits_iff_zoo :
    ∃ f, (zoo 3).Defined ∧ 2 < (zoo 3).classes.length ∧ (zoo 3).lineage 2 = [2, 0, 1] ∧
      (zoo 3).Nearest 2 1 f ∧ f.isPrivate = false ∧ ¬ (zoo 3).Chained 2 ∧
      (zoo 3).findField? 2 f.name ≠ some f ∧ f ∉ (zoo 3).fields 2 ∧
      ∀ verbs flags, flags.exposesInherited = true → flags.exposesHidden = true →
        ¬ ∃ b, (zoo 3).bindName verbs 2 f.name flags = .ok b ∧ b.field? = some f.expose := by
  obtain ⟨-, hall, hfields⟩ := defined_zoo.inherits_iff (c := 2) (by decide)
  have hancestors : (zoo 3).ancestors 2 = [0] := by cbv
  have hlineage : (zoo 3).lineage 2 = [2, 0, 1] := rfl
  have hB : Table.find? ((zoo 3).ownFields 1) fieldOfB.name = some fieldOfB := by decide +kernel
  have hnearer : ∀ c ∈ [2, 0], Table.find? ((zoo 3).ownFields c) fieldOfB.name = none := by
    decide +kernel
  have hnear : (zoo 3).Nearest 2 1 fieldOfB := ⟨[2, 0], [], hlineage, hB, hnearer⟩
  obtain ⟨hfound, hreached⟩ := hfields 1 fieldOfB hnear
  obtain ⟨hfind, hlist⟩ := hfound (by decide +kernel)
  rw [hancestors, hlineage] at hall
  rw [hancestors] at hfind hlist hreached
  have hout : 1 ∉ [2, 0] := by decide
  refine ⟨fieldOfB, defined_zoo, by decide, hlineage, hnear, by decide +kernel, ?_, ?_, ?_, ?_⟩
  · exact fun hchained => absurd (hall.mpr hchained) (by decide)
  · exact fun h => hout (hfind.mp h)
  · exact fun h => hout (hlist.mp h)
  · intro verbs flags hinherited hhidden h
    exact hout ((hreached verbs flags hinherited hhidden).mp h).1

end ClassTable
end Reflection
