import Reflection.Proofs.Field.Inheritance

/-!
# Listings and lookups

What a class lists and what it finds under names are told by two searches: the listing fills a table,
class by class, and a lookup stops at the first class that has something to give. Both pass the classes in
the same order and leave out private fields of ancestors, so a field that is hidden by a nearer one is
neither listed nor found, and a private field hides nothing.

## Main statements

* `ClassTable.values_foldl_addField`: the order of fields that are added to a table.
* `ClassTable.Defined.fields_eq`: the listing, class by class.
* `ClassTable.Defined.lookup_agrees`: listings and lookups agree.
-/
namespace Reflection.ClassTable

variable {t : ClassTable} {c a : ClassId} {name : String} {f : Field}

/-! ## Order of insertion -/

theorem addField_of_find? {fields : Table String Field} {g : Field}
    (h : Table.find? fields f.name = some g) : addField fields f = fields := by
  simp [addField, Table.contains, h]

theorem addField_of_new {fields : Table String Field} (h : Table.find? fields f.name = none) :
    addField fields f = fields ++ [(f.name, f)] := by
  have hkey : f.name ∉ Table.keys fields := (Table.find?_eq_none_iff fields f.name).mp h
  have hinsert : Table.insertAll fields [(f.name, f)] = fields ++ [(f.name, f)] :=
    Table.insertAll_of_new fields (List.nodup_singleton _) (by simpa [Table.keys] using hkey)
  simpa [addField, Table.contains, h, Table.insertAll] using hinsert

/-- Fields that are added to a table go behind those that it has, in their order. Left out are those
under whose names there is another field in the end, or was one before. -/
theorem values_foldl_addField (fields : Table String Field) {fs : List Field} (hfs : fs.Nodup) :
    Table.values (fs.foldl addField fields) = Table.values fields ++ fs.filter fun f =>
      Table.find? (fs.foldl addField fields) f.name = some f ∧
        Table.find? fields f.name = none := by
  -- The table in the end is the same for the list and for its rest, which starts with one field more.
  induction fs generalizing fields with
  | nil => simp
  | cons f rest ih =>
    obtain ⟨hnotin, hrest⟩ := List.nodup_cons.mp hfs
    rw [List.foldl_cons, ih _ hrest]
    cases hfound : Table.find? fields f.name with
    | some g =>
      rw [addField_of_find? hfound, List.filter_cons_of_neg (by simp [hfound])]
    | none =>
      have hadded : Table.find? (addField fields f) f.name = some f := by
        rw [addField_of_new hfound, Table.find?_append, hfound]
        simp [Table.find?]
      have hlast : Table.find? (rest.foldl addField (addField fields f)) f.name = some f := by
        rw [find?_foldl_addField, hadded, Option.some_or]
      rw [List.filter_cons_of_pos (by simp [hlast, hfound])]
      have hothers : rest.filter (fun g =>
          Table.find? (rest.foldl addField (addField fields f)) g.name = some g ∧
            Table.find? (addField fields f) g.name = none) =
          rest.filter fun g =>
            Table.find? (rest.foldl addField (addField fields f)) g.name = some g ∧
              Table.find? fields g.name = none := by
        refine List.filter_congr fun g hg => ?_
        by_cases hname : f.name = g.name
        · have hne : f ≠ g := fun heq => hnotin (heq ▸ hg)
          simp [← hname, hlast, hne]
        · simp [addField_of_new hfound, Table.find?_append, Table.find?, hname]
      rw [hothers, addField_of_new hfound]
      simp [Table.values]

/-! ## Names -/

theorem Listed.map_name_values {fields : Table String Field} (h : Listed fields) :
    (Table.values fields).map Field.name = Table.keys fields := by
  rw [Table.values, Table.keys, List.map_map]
  exact List.map_congr_left fun e he => (h e he).1

/-- No two fields of a class have the same name. -/
theorem nodup_names_fields (t : ClassTable) (c : ClassId) :
    ((t.fields c).map Field.name).Nodup := by
  rw [fields_eq_values, (listed_fieldTable t c).map_name_values]
  exact nodup_keys_fieldTable t c

/-- A field is found under a name just where it is listed and that is its name. -/
theorem findField?_eq_some_iff :
    t.findField? c name = some f ↔ f ∈ t.fields c ∧ f.name = Field.publicName name := by
  rw [mem_fields_iff]
  constructor
  · intro h
    have hname := (findField?_spec h).1
    rw [← find?_fieldTable, Field.publicName_name, hname, find?_fieldTable]
    exact ⟨h, rfl⟩
  · rintro ⟨h, hname⟩
    rwa [← find?_fieldTable, Field.publicName_name, hname, find?_fieldTable] at h

theorem isSome_findField?_iff :
    (t.findField? c name).isSome = true ↔
      Field.publicName name ∈ (t.fields c).map Field.name := by
  rw [Option.isSome_iff_exists, List.mem_map]
  exact exists_congr fun f => findField?_eq_some_iff

theorem getField_eq_ok_iff : t.getField c name = .ok f ↔ t.findField? c name = some f := by
  unfold getField
  cases t.findField? c name <;> simp

theorem getField_eq_error_iff {fault : AccessFault} :
    t.getField c name = .error fault ↔
      t.findField? c name = none ∧ fault = .notField name (t.fullName c) := by
  unfold getField
  cases t.findField? c name <;> simp [eq_comm]

/-! ## Classes -/

theorem pairwise_ancestors (t : ClassTable) (c : ClassId) :
    (c :: t.ancestors c).Pairwise (· > ·) := by
  induction c using Nat.strongRecOn with
  | ind c ih =>
    cases hp : t.parent? c with
    | none => simp [ancestors_of_no_parent hp]
    | some p =>
      rw [ancestors_of_parent hp]
      have hlt := parent_lt hp
      have hparents := ih p hlt
      refine List.pairwise_cons.mpr ⟨fun a ha => ?_, hparents⟩
      rcases List.mem_cons.mp ha with rfl | ha
      · exact hlt
      · exact Nat.lt_trans (List.rel_of_pairwise_cons hparents ha) hlt

namespace Defined

variable (h : t.Defined)

include h

theorem owner_of_mem_ownFields (hf : f ∈ Table.values (t.ownFields a)) : f.owner.id = a := by
  rw [(listed_ownFields t a).mem_values_iff (nodup_keys_ownFields t a)] at hf
  exact h.owner_eq hf

/-- A class inherits every field once. -/
theorem nodup_heritage (c : ClassId) : (t.heritage c).Nodup := by
  refine List.nodup_flatMap.mpr ⟨fun a _ => ?_, ?_⟩
  · have hnames : ((Table.values (t.ownFields a)).map Field.name).Nodup := by
      rw [(listed_ownFields t a).map_name_values]
      exact nodup_keys_ownFields t a
    exact (List.Nodup.of_map _ hnames).filter _
  · refine (List.pairwise_cons.mp (pairwise_ancestors t c)).2.imp fun {a b} hlt f ha hb => ?_
    have howner := h.owner_of_mem_ownFields (List.mem_filter.mp ha).1
    rw [h.owner_of_mem_ownFields (List.mem_filter.mp hb).1] at howner
    exact Nat.lt_irrefl _ (howner ▸ hlt)

/-- A field of an ancestor that a class finds is not private, and the class declares none under its
name. -/
theorem inherits_of_findField (ha : a ∈ t.ancestors c) (hown : f ∈ Table.values (t.ownFields a))
    (hf : t.findField? c f.name = some f) :
    Table.find? (t.ownFields c) f.name = none ∧ f.isPrivate = false := by
  rcases findField?_cases hf with hdeclared | ⟨hnone, hprivate, -⟩
  · have hlt : a < c := List.rel_of_pairwise_cons (pairwise_ancestors t c) ha
    have howner := h.owner_of_mem_ownFields hown
    rw [h.owner_eq hdeclared] at howner
    exact absurd howner.symm (Nat.ne_of_lt hlt)
  · rw [Field.publicName_name] at hnone
    exact ⟨hnone, hprivate⟩

/-- A class lists its own fields, and then those of each ancestor that it finds, the nearest ancestor
first. -/
theorem fields_eq (c : ClassId) : t.fields c = Table.values (t.ownFields c) ++
    (t.ancestors c).flatMap fun a =>
      (Table.values (t.ownFields a)).filter fun f => t.findField? c f.name = some f := by
  have hfind (f : Field) : Table.find? (t.fieldTable c) f.name = t.findField? c f.name := by
    rw [← find?_fieldTable, Field.publicName_name]
  rw [fields_eq_values, fieldTable, values_foldl_addField _ (h.nodup_heritage c), ← fieldTable,
    heritage, List.filter_flatMap]
  congr 1
  refine List.flatMap_congr fun a ha => ?_
  rw [List.filter_filter]
  refine List.filter_congr fun f hf => ?_
  by_cases hfound : t.findField? c f.name = some f
  · obtain ⟨hnone, hprivate⟩ := h.inherits_of_findField ha hf hfound
    simp [hfind, hfound, hnone, hprivate]
  · simp [hfind, hfound]

/-- A field that is listed is one of the class or of an ancestor, and not a private one of an
ancestor. -/
theorem owner_of_mem_fields (hf : f ∈ t.fields c) :
    f.owner.id ∈ c :: t.ancestors c ∧ (f.isPrivate = true → f.owner.id = c) := by
  rw [mem_fields_iff] at hf
  refine ⟨h.owner_of_findField hf, fun hprivate => ?_⟩
  rcases findField?_cases hf with hown | ⟨-, hpublic, -⟩
  · exact h.owner_eq hown
  · rw [hpublic] at hprivate
    cases hprivate

/-- Listings and lookups of fields agree. The fields that a class lists have different names, and under a
name the class finds the listed field that has it, if there is one. So it is where a class must have a
field, which fails just where none is found. Every field is given by a new handle, and none of them is a
private field of an ancestor. The listing has the class's own fields first, and then those of each
ancestor that are found, the nearest ancestor first. -/
theorem lookup_agrees (c : ClassId) :
    ((t.fields c).map Field.name).Nodup ∧
      (∀ name f, t.findField? c name = some f ↔
        f ∈ t.fields c ∧ f.name = Field.publicName name) ∧
      (∀ name, (t.findField? c name).isSome = true ↔
        Field.publicName name ∈ (t.fields c).map Field.name) ∧
      (∀ name f, t.getField c name = .ok f ↔ t.findField? c name = some f) ∧
      (∀ name fault, t.getField c name = .error fault ↔
        t.findField? c name = none ∧ fault = .notField name (t.fullName c)) ∧
      (∀ f ∈ t.fields c, f.IsNew ∧ f.owner.id ∈ c :: t.ancestors c ∧
        (f.isPrivate = true → f.owner.id = c)) ∧
      t.fields c = Table.values (t.ownFields c) ++ (t.ancestors c).flatMap fun a =>
        (Table.values (t.ownFields a)).filter fun f => t.findField? c f.name = some f :=
  ⟨nodup_names_fields t c, fun _ _ => findField?_eq_some_iff, fun _ => isSome_findField?_iff,
    fun _ _ => getField_eq_ok_iff, fun _ _ => getField_eq_error_iff,
    fun _ hf => ⟨isNew_of_mem_fields hf, h.owner_of_mem_fields hf⟩, h.fields_eq c⟩

end Defined

/-- The first ones of the classes `Base` with fields `x` and `y`, `Middle` under it with a private field
`x` and a field `z`, and `Leaf` under that with a protected field `y`. -/
def family (n : Nat) : ClassTable where
  classes :=
    [plainClass 0 "Base" [] ["x", "y"], plainClass 1 "Middle" [0] ["_Middle__x", "z"],
      plainClass 2 "Leaf" [1, 0] ["_y"]].take n
  members := [(("zoo", "Base"), 0), (("zoo", "Middle"), 1), (("zoo", "Leaf"), 2)].take n

theorem defined_family : (family 3).Defined := by
  have hBase : (family 0).define
      { name := "Base", space := "zoo", path := "Base", hints := [("x", .none), ("y", .none)] } =
        .ok (family 1, 0) := by cbv
  have hMiddle : (family 1).define
      { name := "Middle", space := "zoo", path := "Middle", bases := [0],
        hints := [("_Middle__x", .none), ("z", .none)] } = .ok (family 2, 1) := by cbv
  have hLeaf : (family 2).define
      { name := "Leaf", space := "zoo", path := "Leaf", bases := [1], hints := [("_y", .none)] } =
        .ok (family 3, 2) := by cbv
  exact .define (.define (.define .empty (by simp) hBase) (by decide) hMiddle) (by decide) hLeaf

/-- The field `x` of the class `Base`. -/
def fieldOfBase : Field := ⟨⟨0, "Base", "zoo", "Base"⟩, "x", .none, true⟩

/-- The leaf redeclares `y` and inherits `z` and, behind the private field of the class between, the field
`x` of the base. -/
theorem lookup_agrees_family :
    (family 3).Defined ∧
      ((family 3).fields 2).map (fun f => (f.owner.id, f.declared)) =
        [(2, "_y"), (1, "z"), (0, "x")] ∧
      (((family 3).fields 2).map Field.name).Nodup ∧
      (family 3).findField? 2 "_x" = some fieldOfBase ∧
      (family 3).getField 2 "_x" = .ok fieldOfBase ∧ fieldOfBase ∈ (family 3).fields 2 := by
  obtain ⟨hnodup, hfind, -, hget, -⟩ := defined_family.lookup_agrees 2
  have hfound : (family 3).findField? 2 "_x" = some fieldOfBase := by decide +kernel
  exact ⟨defined_family, by decide +kernel, hnodup, hfound, (hget "_x" fieldOfBase).mpr hfound,
    ((hfind "_x" fieldOfBase).mp hfound).1⟩

end Reflection.ClassTable
