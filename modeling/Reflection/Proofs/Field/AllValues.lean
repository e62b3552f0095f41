import Reflection.Proofs.Field.Permission
import Reflection.Proofs.Table

/-!
# All values of an object

To read all fields of an object is to read each of them as a request for its name does. The levels of a
class are read from the last ancestor on, and what is read later replaces what was read under the same
name before, so under each name the level counts at which the name is located.

## Main definitions

* `Instance.IsReadable`: the attributes of all fields are set, and the methods that read them give a
  value and change nothing.
* `Access.valueOf?`: what is read through the binding that is chosen for a field.
* `Access.IsMerged`: a table has, under each name, what the nearest level reads there.

## Main statements

* `Access.getReadable_eq`, `Access.foldlM_getReadable_eq`: reading one field, and several one after the
  other.
* `Access.exists_isMerged`: reading all fields of an object.
* `Access.IsMerged.find?_of_locate?`: what is read under a name is the value of the field that is located.
* `getValues_eq_getValue`: all values of an object are those that requests for names read.
-/
namespace Reflection

open Access ClassTable

/-- The attributes of all fields that the class of an object and its ancestors declare are set, and
where a method is found that reads such a field, it gives a value and leaves the object as it is. -/
structure Instance.IsReadable (t : ClassTable) (verbs : Verbs) (o : Instance) : Prop where
  held : ∀ a ∈ o.type :: t.ancestors o.type, ∀ f ∈ Table.values (t.ownFields a),
    (o.get? t f.stored).isSome = true
  pure : ∀ a ∈ o.type :: t.ancestors o.type, ∀ f ∈ Table.values (t.ownFields a),
    ∀ m, accessor? o.type (some f) (t.reader? verbs f.name) = some m →
      (∃ v, outcome (m.invoke t []) o = .ok v) ∧ state (m.invoke t []) o = o

variable {t : ClassTable} {verbs : Verbs} {o : Instance} {flags : AccessFlags} {f : Field}

/-! ## One field -/

/-- A class and its ancestors find fields that one of them declares. -/
theorem exists_declares {level : ClassId} {name : String}
    (hlevel : level ∈ o.type :: t.ancestors o.type) (h : t.findField? level name = some f) :
    ∃ a ∈ o.type :: t.ancestors o.type, f ∈ Table.values (t.ownFields a) := by
  have hmem {a : ClassId} (hown : Table.find? (t.ownFields a) (Field.publicName name) = some f) :
      f ∈ Table.values (t.ownFields a) :=
    List.mem_map_of_mem (Table.mem_of_find? hown)
  rcases findField?_cases h with hown | ⟨-, -, a, ha, hown⟩
  · exact ⟨level, hlevel, hmem hown⟩
  · exact ⟨a, (suffix_ancestors hlevel).subset (List.mem_cons_of_mem level ha), hmem hown⟩

/-- A field that the class or an ancestor finds is read without a fault, and the object stays as it
is. -/
theorem Instance.IsReadable.perform (h : o.IsReadable t verbs) {level : ClassId} {name : String}
    (hlevel : level ∈ o.type :: t.ancestors o.type) (hf : t.findField? level name = some f)
    {u : FieldUse} (hu : (t.choose verbs o.type f.name (some f) flags).readUse? = some u) :
    (∃ v, outcome (u.perform t) o = .ok v) ∧ state (u.perform t) o = o := by
  obtain ⟨a, ha, hf⟩ := exists_declares hlevel hf
  unfold Binding.readUse? at hu
  split at hu
  · rename_i m hreader
    cases hu
    rw [choose, Binding.reader?_ofParts] at hreader
    split at hreader
    · exact h.pure a ha f hf m hreader
    · cases hreader
  · rw [choose, Binding.field?_ofParts] at hu
    obtain ⟨g, hg, rfl⟩ := Option.map_eq_some_iff.mp hu
    obtain ⟨hexposed, -⟩ := Option.filter_eq_some_iff.mp hg
    cases hexposed
    refine ⟨?_, state_getAttribute o⟩
    obtain ⟨v, hv⟩ := Option.isSome_iff_exists.mp (h.held a ha f hf)
    refine ⟨v, ?_⟩
    rw [FieldUse.perform, AccessFlags.stored_exposed, outcome_getAttribute hv]

namespace Access

/-- What is read through the binding that is chosen for a field of an object. -/
def valueOf? (t : ClassTable) (verbs : Verbs) (o : Instance) (flags : AccessFlags) (f : Field) :
    Option Value :=
  (t.choose verbs o.type f.name (some f) flags).readUse?.bind fun u =>
    (outcome (u.perform t) o).toOption

/-- A binding that can read a field reads it in the same way where hidden fields are exposed. -/
theorem readUse?_exposing {c : ClassId} {name : String} (hf : f.IsNew)
    (h : (t.choose verbs c name (some f) flags).canRead = true) :
    (t.choose verbs c name (some f) flags.exposing).readUse? =
      (t.choose verbs c name (some f) flags).readUse? := by
  have hreader : (t.choose verbs c name (some f) flags.exposing).reader? =
      (t.choose verbs c name (some f) flags).reader? := by
    rw [choose, choose, Binding.reader?_ofParts, Binding.reader?_ofParts]
    rfl
  unfold Binding.readUse?
  rw [hreader]
  cases hmethod : (t.choose verbs c name (some f) flags).reader? with
  | some m => rfl
  | none =>
    rw [Binding.canRead, hmethod, choose, Binding.isAccessible, Binding.field?_ofParts] at h
    have haccessible := (AccessFlags.accessible_exposed_iff flags f).mp h
    have hexposed : flags.exposing.exposed f = flags.exposed f := by
      unfold AccessFlags.exposed
      cases hpublic : f.isPublic with
      | true => simp
      | false =>
        -- A new handle on a hidden field gives no access, so the field was exposed before.
        have hnew : f.accessible = false := hf.trans hpublic
        have hhidden : flags.exposesHidden = true := by simpa [hnew, hpublic] using haccessible
        simp [AccessFlags.exposing, hhidden]
    rw [choose, choose, Binding.field?_ofParts, Binding.field?_ofParts, Option.map_some,
      Option.map_some, hexposed]

/-! ## Several fields -/

/-- Name and value of a field that is read. -/
def reading (t : ClassTable) (verbs : Verbs) (o : Instance) (request : Field × AccessFlags) :
    Option (String × Value) :=
  (valueOf? t verbs o request.2 request.1).map (request.1.name, ·)

/-- To read one field writes its value, if it can be read, and leaves the object as it is. -/
theorem getReadable_eq (h : o.IsReadable t verbs) (hneeds : flags.withoutNeeds = flags)
    {level : ClassId} (hlevel : level ∈ o.type :: t.ancestors o.type)
    (hf : t.findField? level f.name = some f) (values : Table String Value) :
    let x := getReadable t verbs o.type values (f, flags)
    outcome x o = .ok (Table.insertAll values (reading t verbs o (f, flags)).toList) ∧
      state x o = o := by
  unfold getReadable
  simp only [state_bind, outcome_bind, state_ofExcept, outcome_ofExcept,
    bind_of_withoutNeeds hneeds, ← Binding.isSome_readUse?]
  unfold reading valueOf?
  cases huse : (t.choose verbs o.type f.name (some f) flags).readUse? with
  | none => exact ⟨rfl, rfl⟩
  | some u =>
    obtain ⟨⟨v, hv⟩, hstate⟩ := h.perform hlevel hf huse
    simp only [Option.isSome_some, if_true, state_bind, outcome_bind, Binding.read_eq huse,
      state_pure, outcome_pure, Option.bind_some, hv, hstate]
    exact ⟨rfl, trivial⟩

/-- To read fields one after the other writes the values of those that can be read, and leaves the
object as it is. -/
theorem foldlM_getReadable_eq (h : o.IsReadable t verbs) {requests : List (Field × AccessFlags)}
    (hrequests : ∀ r ∈ requests, r.2.withoutNeeds = r.2 ∧
      ∃ level ∈ o.type :: t.ancestors o.type, t.findField? level r.1.name = some r.1)
    (values : Table String Value) :
    let x := requests.foldlM (getReadable t verbs o.type) values
    outcome x o = .ok (Table.insertAll values (requests.filterMap (reading t verbs o))) ∧
      state x o = o := by
  induction requests generalizing values with
  | nil => exact ⟨rfl, rfl⟩
  | cons request rest ih =>
    obtain ⟨⟨hneeds, level, hlevel, hf⟩, hrest⟩ := List.forall_mem_cons.mp hrequests
    intro x
    have hx : x = getReadable t verbs o.type values request >>= fun table =>
        rest.foldlM (getReadable t verbs o.type) table := List.foldlM_cons ..
    obtain ⟨hfirst, hkept⟩ := getReadable_eq h hneeds hlevel hf values
    obtain ⟨hout, hstate⟩ := ih hrest
      (Table.insertAll values (reading t verbs o request).toList)
    rw [hx, outcome_bind, state_bind, hfirst, hkept]
    refine ⟨hout.trans ?_, hstate⟩
    rw [List.filterMap_cons]
    cases reading t verbs o request <;> rfl

/-- What is read of the fields that one level finds. -/
def levelValues (t : ClassTable) (verbs : Verbs) (o : Instance) (level : ClassId × AccessFlags) :
    Table String Value :=
  (t.fields level.1).filterMap fun f => reading t verbs o (f, level.2)

theorem mem_levelValues_iff {level : ClassId × AccessFlags} {key : String} {v : Value} :
    (key, v) ∈ levelValues t verbs o level ↔
      ∃ f, t.findField? level.1 key = some f ∧ f.name = key ∧
        valueOf? t verbs o level.2 f = some v := by
  simp only [levelValues, reading, List.mem_filterMap, Option.map_eq_some_iff, Prod.mk.injEq,
    mem_fields_iff]
  constructor
  · rintro ⟨f, hf, _, hv, rfl, rfl⟩
    exact ⟨f, hf, rfl, hv⟩
  · rintro ⟨f, hf, rfl, hv⟩
    exact ⟨f, hf, v, hv, rfl, rfl⟩

/-- Under a name a level reads the field that it finds. -/
theorem find?_reverse_levelValues (level : ClassId × AccessFlags) {key : String}
    (hkey : Field.publicName key = key) :
    Table.find? (levelValues t verbs o level).reverse key =
      (t.findField? level.1 key).bind (valueOf? t verbs o level.2) := by
  refine Table.find?_eq_of_mem_iff fun v => ?_
  rw [List.mem_reverse, mem_levelValues_iff, Option.bind_eq_some_iff]
  constructor
  · rintro ⟨f, hf, -, hv⟩
    exact ⟨f, hf, hv⟩
  · rintro ⟨f, hf, hv⟩
    exact ⟨f, hf, (findField?_spec hf).1.trans hkey, hv⟩

/-- The levels at which fields are read, the class itself first. -/
theorem reverse_levels (t : ClassTable) (c : ClassId) (flags : AccessFlags) :
    (levels t c flags).reverse = (c, flags) ::
      if flags.exposesInherited then (t.ancestors c).map (·, flags.exposing) else [] := by
  unfold levels
  rw [List.reverse_append, List.reverse_singleton, List.singleton_append]
  split_ifs <;> simp

theorem mem_of_mem_levels {c : ClassId} {level : ClassId × AccessFlags}
    (h : level ∈ levels t c flags) :
    level.1 ∈ c :: t.ancestors c ∧ (level.2 = flags ∨ level.2 = flags.exposing) := by
  rw [← List.mem_reverse, reverse_levels] at h
  rcases List.mem_cons.mp h with rfl | h
  · exact ⟨List.mem_cons_self, .inl rfl⟩
  · split_ifs at h
    · obtain ⟨a, ha, rfl⟩ := List.mem_map.mp h
      exact ⟨List.mem_cons_of_mem c ha, .inr rfl⟩
    · cases h

/-- Under each name a table has what is read there at the nearest level at which something is. -/
def IsMerged (t : ClassTable) (verbs : Verbs) (o : Instance) (flags : AccessFlags)
    (values : Table String Value) : Prop :=
  ∀ key, Table.find? values key = (levels t o.type flags).reverse.findSome? fun l =>
    Table.find? (levelValues t verbs o l).reverse key

/-- All fields of an object are read without a fault, level by level. -/
theorem exists_isMerged (h : o.IsReadable t verbs) (flags : AccessFlags) :
    ∃ values, outcome (getValues t verbs flags) o = .ok values ∧
      state (getValues t verbs flags) o = o ∧ IsMerged t verbs o flags.withoutNeeds values := by
  let requests := (levels t o.type flags.withoutNeeds).flatMap fun level =>
    (t.fields level.1).map (·, level.2)
  have hrequests : ∀ r ∈ requests, r.2.withoutNeeds = r.2 ∧
      ∃ level ∈ o.type :: t.ancestors o.type, t.findField? level r.1.name = some r.1 := by
    intro r hr
    obtain ⟨level, hlevel, hr⟩ := List.mem_flatMap.mp hr
    obtain ⟨f, hf, rfl⟩ := List.mem_map.mp hr
    obtain ⟨hmem, hflags⟩ := mem_of_mem_levels hlevel
    refine ⟨?_, level.1, hmem, mem_fields_iff.mp hf⟩
    rcases hflags with hflags | hflags <;> exact hflags ▸ rfl
  obtain ⟨hout, hstate⟩ := foldlM_getReadable_eq h hrequests []
  have hentries : requests.filterMap (reading t verbs o) =
      (levels t o.type flags.withoutNeeds).flatMap (levelValues t verbs o) := by
    simp only [requests, List.filterMap_flatMap, List.filterMap_map]
    rfl
  refine ⟨_, (outcome_bind ..).trans hout, (state_bind ..).trans hstate, fun key => ?_⟩
  rw [hentries, Table.find?_insertAll, List.reverse_flatMap, Table.find?_flatMap]
  exact Option.or_none

/-! ## Requests for names -/

theorem findField?_publicName (t : ClassTable) (c : ClassId) (name : String) :
    t.findField? c (Field.publicName name) = t.findField? c name := by
  rw [findField?_eq, findField?_eq, Field.publicName_publicName]

/-- A request for a name reads as its binding does. -/
theorem outcome_getValue {name : String} {b : Binding} {u : FieldUse}
    (hb : t.bindName verbs o.type name flags = .ok b) (hu : b.readUse? = some u) (default : Value) :
    outcome (getValue t verbs (.name name) flags default) o = outcome (u.perform t) o := by
  rw [getValue, outcome_bind, state_bindingOf, outcome_bindingOf_name, hb]
  dsimp only
  rw [← Binding.isSome_readUse?, hu, Option.isSome_some, if_pos rfl, Binding.read_eq hu]

/-- Where the first field of a search has a value, that is the first value of the search. -/
theorem findSome?_bind {α β γ : Type} {l : List α} {p : α → Option β} {q : β → Option γ} {b : β} {v : γ}
    (h : l.findSome? p = some b) (hv : q b = some v) : l.findSome? (fun a => (p a).bind q) = some v := by
  obtain ⟨before, x, after, hl, hx, hbefore⟩ := List.findSome?_eq_some_iff.mp h
  refine findSome?_of_split hl (fun y hy => ?_) ?_
  · rw [hbefore y hy, Option.bind_none]
  · rw [hx, Option.bind_some, hv]

/-- At the levels, the first value under a name is that of the field that is located, if this can be
read. -/
theorem findSome?_levels {name : String} {v : Value}
    (hf : t.locate? o.type name flags.exposesInherited = some f)
    (hv : valueOf? t verbs o flags f = some v) :
    (levels t o.type flags).reverse.findSome? (fun l =>
      (t.findField? l.1 name).bind (valueOf? t verbs o l.2)) = some v := by
  rw [reverse_levels, List.findSome?_cons]
  rw [locate?, List.findSome?_cons] at hf
  cases hown : t.findField? o.type name with
  | some g =>
    rw [hown] at hf
    cases hf
    rw [Option.bind_some, hv]
  | none =>
    rw [hown] at hf
    dsimp only at hf
    rw [Option.bind_none]
    dsimp only
    have hread : (t.choose verbs o.type f.name (some f) flags).canRead = true := by
      obtain ⟨u, hu, -⟩ := Option.bind_eq_some_iff.mp hv
      rw [← Binding.isSome_readUse?, hu, Option.isSome_some]
    have hexposing : valueOf? t verbs o flags.exposing f = some v := by
      obtain ⟨level, -, hfound⟩ := List.exists_of_findSome?_eq_some hf
      rw [valueOf?, readUse?_exposing (findField?_spec hfound).2 hread]
      exact hv
    split_ifs at hf ⊢ with hinherited
    · rw [List.findSome?_map]
      exact findSome?_bind hf hexposing
    · cases hf

/-- A request without needs for a name that gets a field which can be read reads the value of the field
that is located. -/
theorem exists_valueOf {name : String} {b : Binding} (h : o.IsReadable t verbs)
    (hneeds : flags.withoutNeeds = flags) (hb : t.bindName verbs o.type name flags = .ok b)
    (hfield : b.field?.isSome = true) (hread : b.canRead = true) :
    ∃ f v, t.locate? o.type name flags.exposesInherited = some f ∧
      valueOf? t verbs o flags f = some v ∧
      ∀ default, outcome (getValue t verbs (.name name) flags default) o = .ok v := by
  obtain ⟨u, hu⟩ := Option.isSome_iff_exists.mp (Binding.isSome_readUse?.trans hread)
  have hget := outcome_getValue hb hu
  rw [bindName_of_withoutNeeds hneeds] at hb
  cases hb
  rw [choose, Binding.field?_ofParts, Option.isSome_map] at hfield
  obtain ⟨f, hf⟩ := Option.isSome_iff_exists.mp hfield
  rw [hf, ← (locate?_spec hf).1] at hu
  obtain ⟨level, hlevel, hfound⟩ := List.exists_of_findSome?_eq_some hf
  have hmem : level ∈ o.type :: t.ancestors o.type := by
    split_ifs at hlevel
    · exact hlevel
    · exact List.mem_cons.mpr (.inl (List.mem_singleton.mp hlevel))
  obtain ⟨⟨v, hv⟩, -⟩ := h.perform hmem hfound hu
  refine ⟨f, v, hf, ?_, fun default => (hget default).trans hv⟩
  rw [valueOf?, hu, Option.bind_some, hv]
  rfl

/-- Where hidden fields are exposed, all fields can be read. -/
theorem exists_valueOf_of_exposesHidden (h : o.IsReadable t verbs) {level : ClassId} {name : String}
    (hlevel : level ∈ o.type :: t.ancestors o.type) (hf : t.findField? level name = some f)
    (hhidden : flags.exposesHidden = true) : ∃ v, valueOf? t verbs o flags f = some v := by
  have hread : (t.choose verbs o.type f.name (some f) flags).canRead = true := by
    rw [choose, Binding.canRead_ofParts, Option.map_some,
      exposed_eq_expose hhidden (findField?_spec hf).2]
    exact Bool.or_true _
  obtain ⟨u, hu⟩ := Option.isSome_iff_exists.mp (Binding.isSome_readUse?.trans hread)
  obtain ⟨⟨v, hv⟩, -⟩ := h.perform hlevel hf hu
  refine ⟨v, ?_⟩
  rw [valueOf?, hu, Option.bind_some, hv]
  rfl

/-! ## Names -/

namespace IsMerged

variable {values : Table String Value}

/-- A name in the table comes from a level that finds a field under it. -/
theorem exists_level (hvalues : IsMerged t verbs o flags values) {key : String}
    (hkey : key ∈ Table.keys values) :
    ∃ level ∈ levels t o.type flags, ∃ f, t.findField? level.1 key = some f ∧ f.name = key ∧
      ∃ v, valueOf? t verbs o level.2 f = some v := by
  obtain ⟨v, hv⟩ := Option.isSome_iff_exists.mp ((Table.isSome_find?_iff values key).mpr hkey)
  rw [hvalues] at hv
  obtain ⟨level, hlevel, hv⟩ := List.exists_of_findSome?_eq_some hv
  obtain ⟨f, hf, hname, hv⟩ := mem_levelValues_iff.mp (List.mem_reverse.mp (Table.mem_of_find? hv))
  exact ⟨level, List.mem_reverse.mp hlevel, f, hf, hname, v, hv⟩

/-- Under a name the table has the value of the field that is located, if this can be read. -/
theorem find?_of_locate? (hvalues : IsMerged t verbs o flags values) {name : String} {v : Value}
    (hf : t.locate? o.type name flags.exposesInherited = some f)
    (hv : valueOf? t verbs o flags f = some v) :
    Table.find? values (Field.publicName name) = some v := by
  simp only [hvalues (Field.publicName name),
    find?_reverse_levelValues _ (Field.publicName_publicName name), findField?_publicName]
  exact findSome?_levels hf hv

/-- Where ancestors are left aside, every name in the table is one for which a request gets a field that
can be read. -/
theorem exists_binding (hvalues : IsMerged t verbs o flags values)
    (hneeds : flags.withoutNeeds = flags) (hinherited : flags.exposesInherited = false)
    {key : String} (hkey : key ∈ Table.keys values) :
    Field.publicName key = key ∧ ∃ b, t.bindName verbs o.type key flags = .ok b ∧
      b.field?.isSome = true ∧ b.canRead = true := by
  obtain ⟨level, hlevel, f, hf, rfl, v, hv⟩ := hvalues.exists_level hkey
  rw [levels, hinherited, if_neg Bool.false_ne_true, List.nil_append, List.mem_singleton] at hlevel
  subst hlevel
  have hlocated : t.locate? o.type f.name flags.exposesInherited = some f := by
    rw [hinherited, locate?, List.findSome?_cons, hf]
  obtain ⟨u, hu, -⟩ := Option.bind_eq_some_iff.mp hv
  refine ⟨f.publicName_name, _, bindName_of_withoutNeeds hneeds, ?_, ?_⟩
  · rw [choose, Binding.field?_ofParts, hlocated]
    rfl
  · rw [hlocated, f.publicName_name, ← Binding.isSome_readUse?, hu, Option.isSome_some]

/-- Where ancestors are searched and hidden fields exposed, the names in the table are those of all
fields that the class and its ancestors declare. -/
theorem mem_keys_iff (hvalues : IsMerged t verbs o flags values) (h : o.IsReadable t verbs)
    (hinherited : flags.exposesInherited = true) (hhidden : flags.exposesHidden = true)
    {key : String} : key ∈ Table.keys values ↔ ∃ a ∈ o.type :: t.ancestors o.type,
      ∃ f ∈ Table.values (t.ownFields a), f.name = key := by
  constructor
  · intro hkey
    obtain ⟨level, hlevel, f, hf, hname, -⟩ := hvalues.exists_level hkey
    obtain ⟨a, ha, hown⟩ := exists_declares (mem_of_mem_levels hlevel).1 hf
    exact ⟨a, ha, f, hown, hname⟩
  · rintro ⟨a, ha, f, hown, rfl⟩
    have hf : t.findField? a f.name = some f := by
      have hfound := ((listed_ownFields t a).mem_values_iff (nodup_keys_ownFields t a)).mp hown
      rw [findField?_eq, f.publicName_name, hfound, Option.some_or]
    -- The field itself may be overridden, but then another one is located under its name.
    obtain ⟨g, hg⟩ : ∃ g, t.locate? o.type f.name flags.exposesInherited = some g := by
      rw [hinherited, ← Option.isSome_iff_exists, locate?, List.findSome?_isSome_iff]
      exact ⟨a, ha, hf ▸ rfl⟩
    obtain ⟨level, hlevel, hfound⟩ := List.exists_of_findSome?_eq_some hg
    rw [hinherited] at hlevel
    obtain ⟨v, hv⟩ := exists_valueOf_of_exposesHidden h hlevel hfound hhidden
    rw [← Table.isSome_find?_iff, ← f.publicName_name, hvalues.find?_of_locate? hg hv,
      Option.isSome_some]

end IsMerged
end Access

/-- All fields of an object whose attributes are set are read without a fault, and the object stays as
it is. Each name for which a request without needs gets a field that can be read has the value that the
request reads. Where ancestors are left aside there are no other names; where ancestors are searched
and hidden fields exposed, the names are those of all fields that the class and its ancestors declare. -/
theorem getValues_eq_getValue (s : FieldService) (t : ClassTable) (o : Instance) (flags : Int)
    (h : o.IsReadable t s.verbs) :
    let plain := AccessFlags.ofInt (Number.bitAnd flags (Number.bitNot 0x6))
    let x := (s.getValues t o.type (.ofInt flags)).2
    ∃ values, outcome x o = .ok values ∧ state x o = o ∧
      (∀ name b, (s.bind t ⟨o.type, false⟩ name plain).2 = .ok b → b.field?.isSome = true →
        b.canRead = true → ∃ v, Table.find? values (Field.publicName name) = some v ∧
          ∀ default, outcome (s.getValue t o.type (.name name) plain default).2 o = .ok v) ∧
      (AccessFlags.covers flags 0x8 = false → ∀ key ∈ Table.keys values,
        Field.publicName key = key ∧ ∃ b, (s.bind t ⟨o.type, false⟩ key plain).2 = .ok b ∧
          b.field?.isSome = true ∧ b.canRead = true) ∧
      (AccessFlags.covers flags 0x8 = true → AccessFlags.covers flags 0x1 = true → ∀ key,
        key ∈ Table.keys values ↔ ∃ a ∈ o.type :: t.ancestors o.type,
          ∃ f ∈ Table.values (t.ownFields a), f.name = key) := by
  intro plain x
  have hplain : plain = (AccessFlags.ofInt flags).withoutNeeds := AccessFlags.ofInt_withoutNeeds flags
  have hneeds : plain.withoutNeeds = plain := hplain ▸ rfl
  obtain ⟨values, hout, hstate, hvalues⟩ := exists_isMerged h (AccessFlags.ofInt flags)
  rw [← hplain] at hvalues
  refine ⟨values, hout, hstate, ?_, ?_, ?_⟩
  · intro name b hb hfield hread
    obtain ⟨f, v, hf, hv, hget⟩ := exists_valueOf h hneeds hb hfield hread
    exact ⟨v, hvalues.find?_of_locate? hf hv, hget⟩
  · intro hinherited key hkey
    exact hvalues.exists_binding hneeds (hplain ▸ hinherited) hkey
  · intro hinherited hhidden key
    exact hvalues.mem_keys_iff h (hplain ▸ hinherited) (hplain ▸ hhidden)

/-- The private field of the class `Vault`. -/
def vaultSecret : Field := ⟨⟨0, "Vault", "zoo", "Vault"⟩, "__secret", .none, false⟩

/-- An object of the class `Guard` that holds the attribute of the private field. -/
def vaultGuard : Instance where
  type := 1
  attributes := [("_Vault__secret", .int 5)]

theorem forall_field_vaultGuard {P : ClassId → Field → Prop} (h : P 0 vaultSecret) :
    ∀ a ∈ vaultGuard.type :: vault.ancestors vaultGuard.type,
      ∀ f ∈ Table.values (vault.ownFields a), P a f := by
  have hancestors : vault.ancestors vaultGuard.type = [0] := by decide +kernel
  have hguard : Table.values (vault.ownFields vaultGuard.type) = [] := by decide +kernel
  have hvault : Table.values (vault.ownFields 0) = [vaultSecret] := by decide +kernel
  simpa [hancestors, hguard, hvault] using h

theorem isReadable_vaultGuard : vaultGuard.IsReadable vault ⟨["get"], ["set"]⟩ where
  held := forall_field_vaultGuard rfl
  pure := forall_field_vaultGuard fun m hm => by
    have hreader : accessor? vaultGuard.type (some vaultSecret)
        (vault.reader? ⟨["get"], ["set"]⟩ vaultSecret.name) =
        some ⟨⟨1, "Guard", "zoo", "Guard"⟩, "get_secret",
          ⟨.ofObject, [⟨"self", .required⟩], .const (.int 7), none⟩⟩ := by rfl
    rw [hreader] at hm
    cases hm
    exact ⟨⟨.int 7, rfl⟩, rfl⟩

/-- The private field of the vault is reached from its guard, whose method reads it in both ways. -/
theorem getValues_eq_getValue_vaultGuard :
    let s : FieldService := ⟨⟨["get"], ["set"]⟩, {}⟩
    let plain := AccessFlags.ofInt (Number.bitAnd 0x4d (Number.bitNot 0x6))
    vaultGuard.IsReadable vault s.verbs ∧
      (vault.locate? vaultGuard.type "secret" true).map Field.isPrivate = some true ∧
      ∃ values v, outcome (s.getValues vault vaultGuard.type (.ofInt 0x4d)).2 vaultGuard = .ok values ∧
        Table.find? values "secret" = some v ∧
        outcome (s.getValue vault vaultGuard.type (.name "secret") plain .null).2 vaultGuard = .ok v ∧
        ∀ key, key ∈ Table.keys values ↔ ∃ a ∈ vaultGuard.type :: vault.ancestors vaultGuard.type,
          ∃ f ∈ Table.values (vault.ownFields a), f.name = key := by
  intro s plain
  obtain ⟨values, hout, -, hfound, -, hkeys⟩ :=
    getValues_eq_getValue s vault vaultGuard 0x4d isReadable_vaultGuard
  have hneeds : plain.withoutNeeds = plain := by decide
  have hbound : (s.bind vault ⟨vaultGuard.type, false⟩ "secret" plain).2 =
      .ok (vault.choose s.verbs vaultGuard.type (Field.publicName "secret")
        (vault.locate? vaultGuard.type "secret" plain.exposesInherited) plain) :=
    bindName_of_withoutNeeds hneeds
  obtain ⟨v, hv, hget⟩ := hfound "secret" _ hbound (by decide +kernel) (by decide +kernel)
  exact ⟨isReadable_vaultGuard, by decide +kernel, values, v, hout, hv, hget .null,
    hkeys (by decide) (by decide)⟩

end Reflection
