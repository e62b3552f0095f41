import Reflection.Proofs.Field.AllValues

/-!
# Assignments to fields

Where accessor methods are not permitted, a request to write sets one attribute of the object or none: that
of the field that its name means, if the field gives access and objects of the class can hold the attribute.
Which attribute it is depends on the class and on the request alone, so it is the attribute that a request
to read under the same name gets, and requests one after the other do not stand in each other's way.

## Main definitions

* `Instance.own?`: what an object itself holds under a name.
* `ClassTable.settable?`: the attribute that a request sets.
* `ClassTable.assignments`, `Instance.assign`: the attributes that several requests set, and the object
  after these were set.

## Main statements

* `Instance.own?_of_set?`, `Instance.own?_assign`: what an object holds after one attribute was set, and
  after several.
* `Access.setValue_of_settable`, `Access.setValue_of_not_settable`: one request.
* `Access.state_setValues`: several requests.
* `setValue_exact`: a request sets its attribute and no other, and then the value is read back.
* `setValues_last`: after several requests the last one for an attribute counts.
-/
namespace Reflection

open Access ClassTable

variable {t : ClassTable} {verbs : Verbs} {o o' : Instance} {c : ClassId} {name a : String} {v : Value}
  {flags : AccessFlags} {f : Field}

/-! ## Attributes -/

namespace ClassTable

/-- The class whose slot holds the attribute of a name in objects of a class. -/
def slotOwner? (t : ClassTable) (c : ClassId) (name : String) : Option ClassId :=
  match t.lookup? c name with
  | some (owner, .slot) => some owner
  | _ => none

/-- Objects of a class can hold an attribute: there is a slot for it, or they hold any. -/
def canHold (t : ClassTable) (c : ClassId) (name : String) : Bool :=
  (t.slotOwner? c name).isSome || t.isOpen c

end ClassTable

namespace Instance

/-- What an object itself holds under a name, in the slot for it or else among its attributes. -/
def own? (t : ClassTable) (o : Instance) (name : String) : Option Value :=
  match t.slotOwner? o.type name with
  | some owner => Table.find? o.slots (owner, name)
  | none => Table.find? o.attributes name

theorem set?_eq (t : ClassTable) (o : Instance) (name : String) (v : Value) :
    o.set? t name v =
      match t.slotOwner? o.type name with
      | some owner => some { o with slots := Table.insert o.slots (owner, name) v }
      | none =>
        if t.isOpen o.type then some { o with attributes := Table.insert o.attributes name v }
        else none := by
  cases hfound : t.lookup? o.type name with
  | none => simp only [set?, slotOwner?, hfound]
  | some found =>
    obtain ⟨owner, entry⟩ := found
    cases entry <;> simp only [set?, slotOwner?, hfound]

theorem isSome_set? (t : ClassTable) (o : Instance) (name : String) (v : Value) :
    (o.set? t name v).isSome = t.canHold o.type name := by
  rw [set?_eq, canHold]
  cases t.slotOwner? o.type name with
  | some owner => rfl
  | none => by_cases hopen : t.isOpen o.type = true <;> simp [hopen]

theorem type_of_set? (h : o.set? t name v = some o') : o'.type = o.type := by
  rw [set?_eq] at h
  cases hslot : t.slotOwner? o.type name with
  | some owner =>
    rw [hslot] at h
    cases h
    rfl
  | none =>
    simp only [hslot, Option.ite_none_right_eq_some, Option.some.injEq] at h
    obtain ⟨-, rfl⟩ := h
    rfl

/-- An object to which an attribute was set holds the value there, and what it held before elsewhere. -/
theorem own?_of_set? (h : o.set? t name v = some o') (a : String) :
    o'.own? t a = if a = name then some v else o.own? t a := by
  rw [own?, own?, type_of_set? h]
  rw [set?_eq] at h
  by_cases ha : a = name
  · subst ha
    cases hslot : t.slotOwner? o.type a with
    | some owner =>
      rw [hslot] at h
      cases h
      simp
    | none =>
      simp only [hslot, Option.ite_none_right_eq_some, Option.some.injEq] at h
      obtain ⟨-, rfl⟩ := h
      simp
  · cases hslot : t.slotOwner? o.type name with
    | some owner =>
      rw [hslot] at h
      cases h
      simp [ha, Ne.symm ha]
    | none =>
      simp only [hslot, Option.ite_none_right_eq_some, Option.some.injEq] at h
      obtain ⟨-, rfl⟩ := h
      simp [ha, Ne.symm ha]

/-- What an object itself holds comes before what a name means for its class. -/
theorem get?_of_own? (h : o.own? t name = some v) : o.get? t name = some v := by
  rw [own?, slotOwner?] at h
  rw [get?]
  cases hfound : t.lookup? o.type name with
  | none =>
    rw [hfound] at h
    dsimp only at h ⊢
    rw [h]
  | some found =>
    obtain ⟨owner, entry⟩ := found
    rw [hfound] at h
    cases entry with
    | slot => exact h
    | value _ | method _ | nested _ =>
      dsimp only at h ⊢
      rw [h]

end Instance

namespace Access

theorem outcome_setAttribute (t : ClassTable) (name : String) (v : Value) (o : Instance) :
    outcome (setAttribute t name v) o =
      if t.canHold o.type name then .ok () else .error (.noAttribute name) := by
  rw [← o.isSome_set? t name v]
  simp only [setAttribute, outcome_bind, outcome_get, state_get]
  cases o.set? t name v <;> rfl

end Access

/-! ## Requests without methods -/

namespace ClassTable

/-- The attribute that a request without methods sets: that of the field that is located, if the field
gives access after the request and objects of the class can hold the attribute. -/
def settable? (t : ClassTable) (c : ClassId) (name : String) (flags : AccessFlags) : Option String :=
  ((t.locate? c name flags.exposesInherited).filter fun f =>
    (flags.exposed f).accessible && t.canHold c f.stored).map Field.stored

theorem settable?_eq_some_iff : t.settable? c name flags = some a ↔
    ∃ f, t.locate? c name flags.exposesInherited = some f ∧ (flags.exposed f).accessible = true ∧
      t.canHold c f.stored = true ∧ f.stored = a := by
  simp [settable?, Option.filter_eq_some_iff, and_assoc]

theorem readUse?_choose {field : Option Field} (h : flags.permitsReader = false) :
    (t.choose verbs c name field flags).readUse? =
      ((field.map flags.exposed).filter (·.accessible)).map .get := by
  have hreader : (t.choose verbs c name field flags).reader? = none := by
    simp [choose, AccessFlags.usesReader, h]
  rw [Binding.readUse?, hreader, choose, Binding.field?_ofParts]

theorem writeUse?_choose {field : Option Field} (h : flags.permitsWriter = false) :
    (t.choose verbs c name field flags).writeUse? v =
      ((field.map flags.exposed).filter (·.accessible)).map (.set · v) := by
  have hwriter : (t.choose verbs c name field flags).writer? = none := by
    simp [choose, AccessFlags.usesWriter, h]
  rw [Binding.writeUse?, hwriter, choose, Binding.field?_ofParts]

end ClassTable

namespace Access

/-- A request without methods for a name with an attribute to set sets it. -/
theorem setValue_of_settable (h : flags.permitsWriter = false)
    (hset : t.settable? o.type name flags = some a) :
    outcome (setValue t verbs name v flags) o = .ok () ∧
      o.set? t a v = some (state (setValue t verbs name v flags) o) := by
  obtain ⟨f, hf, haccessible, hhold, rfl⟩ := settable?_eq_some_iff.mp hset
  have hbound : t.bindName verbs o.type name flags =
      .ok (t.choose verbs o.type (Field.publicName name) (some f) flags) :=
    bindName_of_accessible hf haccessible
  have huse : (t.choose verbs o.type (Field.publicName name) (some f) flags).writeUse? v =
      some (.set (flags.exposed f) v) := by
    simp [writeUse?_choose h, haccessible]
  obtain ⟨o', ho'⟩ : ∃ o', o.set? t f.stored v = some o' := by
    rw [← Option.isSome_iff_exists, o.isSome_set?, hhold]
  rw [setValue, outcome_bind, state_bind, state_bindingOf, outcome_bindingOf_name, hbound]
  dsimp only
  rw [Binding.write_eq huse, outcome_bind_pure, state_bind_pure, FieldUse.perform, outcome_bind_pure,
    state_bind_pure, outcome_setAttribute, state_setAttribute, AccessFlags.stored_exposed, hhold, ho']
  exact ⟨rfl, rfl⟩

/-- A request without methods for a name with no attribute to set fails, and the object stays as it is. -/
theorem setValue_of_not_settable (h : flags.permitsWriter = false)
    (hset : t.settable? o.type name flags = none) :
    (∃ fault, outcome (setValue t verbs name v flags) o = .error fault) ∧
      state (setValue t verbs name v flags) o = o := by
  rcases setValue_cases t verbs name v flags o with
    ⟨b, u, hbound, huse, hout, hstate⟩ | ⟨hstate, ⟨fault, -, hout⟩ | ⟨owner, field, hout⟩⟩
  · rw [eq_choose_of_bind hbound, writeUse?_choose h] at huse
    obtain ⟨g, hg, rfl⟩ := Option.map_eq_some_iff.mp huse
    obtain ⟨hg, haccessible⟩ := Option.filter_eq_some_iff.mp hg
    obtain ⟨f, hf, rfl⟩ := Option.map_eq_some_iff.mp hg
    -- The field is located and gives access, so what is missing is a place for its attribute.
    have hhold : t.canHold o.type f.stored = false := by
      by_contra hhold
      have hsome : t.settable? o.type name flags = some f.stored :=
        settable?_eq_some_iff.mpr ⟨f, hf, haccessible, by simpa using hhold, rfl⟩
      rw [hset] at hsome
      cases hsome
    have hnone : o.set? t f.stored v = none := by
      rw [← Option.isNone_iff_eq_none, ← Option.not_isSome, o.isSome_set?, hhold]
      rfl
    rw [FieldUse.perform, outcome_bind_pure, outcome_setAttribute, AccessFlags.stored_exposed,
      hhold] at hout
    rw [FieldUse.perform, state_bind_pure, state_setAttribute, AccessFlags.stored_exposed,
      hnone] at hstate
    exact ⟨⟨_, hout⟩, hstate⟩
  · exact ⟨⟨fault, hout⟩, hstate⟩
  · exact ⟨⟨_, hout⟩, hstate⟩

/-- A request without methods succeeds just where its name has an attribute to set. -/
theorem setValue_eq_ok_iff (h : flags.permitsWriter = false) :
    outcome (setValue t verbs name v flags) o = .ok () ↔
      (t.settable? o.type name flags).isSome = true := by
  cases hset : t.settable? o.type name flags with
  | some a => exact iff_of_true (setValue_of_settable h hset).1 rfl
  | none =>
    obtain ⟨fault, hout⟩ : ∃ fault, outcome (setValue t verbs name v flags) o = .error fault :=
      (setValue_of_not_settable h hset).1
    simp [hout]

/-- What an object holds in the attribute that a name sets is read under that name. -/
theorem getValue_of_own? (h : flags.permitsReader = false)
    (hset : t.settable? o.type name flags = some a) (hown : o.own? t a = some v) (default : Value) :
    outcome (getValue t verbs (.name name) flags default) o = .ok v := by
  obtain ⟨f, hf, haccessible, -, rfl⟩ := settable?_eq_some_iff.mp hset
  have huse : (t.choose verbs o.type (Field.publicName name) (some f) flags).readUse? =
      some (.get (flags.exposed f)) := by
    simp [readUse?_choose h, haccessible]
  rw [outcome_getValue (bindName_of_accessible hf haccessible) huse, FieldUse.perform,
    AccessFlags.stored_exposed]
  exact outcome_getAttribute (Instance.get?_of_own? hown)

end Access

/-! ## Several requests -/

/-- The attributes that requests for the names of a list of entries set, in order, with their values. -/
def ClassTable.assignments (t : ClassTable) (c : ClassId) (values : List (String × Value))
    (flags : AccessFlags) : List (String × Value) :=
  values.filterMap fun e => (t.settable? c e.1 flags).map (·, e.2)

/-- The object after attributes were set one after the other, those that it can hold. -/
def Instance.assign (t : ClassTable) (o : Instance) (entries : List (String × Value)) : Instance :=
  entries.foldl (fun o e => (o.set? t e.1 e.2).getD o) o

/-- After several attributes were set, an object holds the last value for each. -/
theorem Instance.own?_assign {entries : List (String × Value)}
    (h : ∀ e ∈ entries, t.canHold o.type e.1 = true) (a : String) :
    (o.assign t entries).own? t a = (Table.find? entries.reverse a).or (o.own? t a) := by
  induction entries generalizing o with
  | nil => rfl
  | cons e rest ih =>
    obtain ⟨b, v⟩ := e
    obtain ⟨hhold, hrest⟩ := List.forall_mem_cons.mp h
    obtain ⟨o', ho'⟩ : ∃ o', o.set? t b v = some o' := by
      rw [← Option.isSome_iff_exists, o.isSome_set?, hhold]
    have hstep : o.assign t ((b, v) :: rest) = o'.assign t rest := by
      simp [assign, ho']
    rw [← type_of_set? ho'] at hrest
    rw [hstep, ih hrest, own?_of_set? ho', List.reverse_cons, Table.find?_append, Option.or_assoc]
    by_cases ha : a = b
    · simp [Table.find?, ha]
    · simp [Table.find?, ha, Ne.symm ha]

namespace ClassTable

theorem canHold_of_mem_assignments {values : List (String × Value)} {e : String × Value}
    (h : e ∈ t.assignments c values flags) : t.canHold c e.1 = true := by
  obtain ⟨entry, -, he⟩ := List.mem_filterMap.mp h
  obtain ⟨a, hset, rfl⟩ := Option.map_eq_some_iff.mp he
  obtain ⟨f, -, -, hhold, rfl⟩ := settable?_eq_some_iff.mp hset
  exact hhold

theorem assignments_cons (name : String) (v : Value) (rest : List (String × Value)) :
    t.assignments c ((name, v) :: rest) flags =
      ((t.settable? c name flags).map (·, v)).toList ++ t.assignments c rest flags := by
  rw [assignments, List.filterMap_cons]
  cases t.settable? c name flags <;> rfl

/-- Entries whose names have no attribute to set are of no account. -/
theorem assignments_filter (values : List (String × Value)) :
    t.assignments c (values.filter fun e => (t.settable? c e.1 flags).isSome) flags =
      t.assignments c values flags := by
  rw [assignments, assignments, List.filterMap_filter]
  refine List.filterMap_congr fun e _ => ?_
  cases t.settable? c e.1 flags <;> rfl

end ClassTable

namespace Access

/-- Requests without methods set the attributes of their names one after the other. -/
theorem state_setValues (h : flags.permitsWriter = false) (values : Table String Value)
    (o : Instance) :
    state (setValues t verbs values flags) o = o.assign t (t.assignments o.type values flags) := by
  induction values generalizing o with
  | nil => rfl
  | cons e rest ih =>
    obtain ⟨name, v⟩ := e
    rw [state_setValues_cons, ih, assignments_cons]
    cases hset : t.settable? o.type name flags with
    | none =>
      rw [(setValue_of_not_settable h hset).2]
      rfl
    | some a =>
      have hstate : o.set? t a v = some (state (setValue t verbs name v flags) o) :=
        (setValue_of_settable h hset).2
      rw [Instance.type_of_set? hstate]
      simp [Instance.assign, hstate]

end Access

/-! ## Exact writes -/

/-- A request to write that permits no methods is exact and atomic. It succeeds just where a field is
located for its name that gives access and that objects of the class can hold. Then the attribute of this
field has the value, every other attribute stays as it was, and every service reads the value back under
the same name and request. A request that fails leaves the object as it is. -/
theorem setValue_exact (s : FieldService) (t : ClassTable) (o : Instance) (name : String) (v : Value)
    {flags : Int} (hflags : Number.bitAnd flags 0x60 = 0) :
    let request := AccessFlags.ofInt flags
    let x := (s.setValue t o.type name v request).2
    (outcome x o = .ok () ↔ ∃ f, t.locate? o.type name request.exposesInherited = some f ∧
      (request.exposed f).accessible = true ∧ t.canHold o.type f.stored = true) ∧
    (outcome x o = .ok () → ∃ f, t.locate? o.type name request.exposesInherited = some f ∧
      o.set? t f.stored v = some (state x o) ∧
      (∀ a, (state x o).own? t a = if a = f.stored then some v else o.own? t a) ∧
      ∀ (later : FieldService) (default : Value),
        outcome (later.getValue t o.type (.name name) request default).2 (state x o) = .ok v) ∧
    ∀ fault, outcome x o = .error fault → state x o = o := by
  intro request x
  obtain ⟨hreader, hwriter⟩ := AccessFlags.permits_ofInt hflags
  have hok : outcome x o = .ok () ↔ (t.settable? o.type name request).isSome = true :=
    setValue_eq_ok_iff hwriter
  refine ⟨?_, fun hout => ?_, fun fault hout => ?_⟩
  · rw [hok, Option.isSome_iff_exists]
    simp [settable?_eq_some_iff]
  · obtain ⟨a, hset⟩ := Option.isSome_iff_exists.mp (hok.mp hout)
    obtain ⟨f, hf, -, -, rfl⟩ := settable?_eq_some_iff.mp hset
    have hstate : o.set? t f.stored v = some (state x o) := (setValue_of_settable hwriter hset).2
    have hown := Instance.own?_of_set? hstate
    refine ⟨f, hf, hstate, hown, fun later default => ?_⟩
    refine getValue_of_own? hreader ?_ ((hown f.stored).trans (if_pos rfl)) default
    rwa [Instance.type_of_set? hstate]
  · cases hset : t.settable? o.type name request with
    | some a =>
      rw [hok.mpr (by rw [hset, Option.isSome_some])] at hout
      cases hout
    | none => exact (setValue_of_not_settable hwriter hset).2

/-- The private field of the vault is set from its guard, and read back. -/
theorem setValue_exact_vaultGuard :
    let s : FieldService := ⟨⟨["get"], ["set"]⟩, {}⟩
    let request := AccessFlags.ofInt 0x9
    let x := (s.setValue vault vaultGuard.type "secret" (.int 8) request).2
    Number.bitAnd 0x9 0x60 = 0 ∧ outcome x vaultGuard = .ok () ∧
      (state x vaultGuard).own? vault "_Vault__secret" = some (.int 8) ∧
      outcome (s.getValue vault vaultGuard.type (.name "secret") request .null).2
        (state x vaultGuard) = .ok (.int 8) := by
  intro s request x
  have hflags : Number.bitAnd 0x9 0x60 = 0 := by decide
  obtain ⟨hok, hset, -⟩ := setValue_exact s vault vaultGuard "secret" (.int 8) hflags
  have hlocated : vault.locate? vaultGuard.type "secret" request.exposesInherited =
      some vaultSecret := by decide +kernel
  have hout := hok.mpr ⟨vaultSecret, hlocated, by decide +kernel, by decide +kernel⟩
  obtain ⟨f, hf, -, hown, hget⟩ := hset hout
  rw [hlocated] at hf
  cases hf
  exact ⟨hflags, hout, (hown "_Vault__secret").trans (if_pos (by decide +kernel)), hget s .null⟩

/-- Several requests to write that permit no methods are independent. They never fail together. Each
attribute then holds the value of the last entry whose name sets it, or what the object held before if
there is no such entry. An entry whose name sets no attribute is one that fails alone; such entries are of
no account to the others. Where no two entries set the same attribute, their order does not matter. -/
theorem setValues_last (s : FieldService) (t : ClassTable) (o : Instance)
    (values : Table String Value) {flags : Int} (hflags : Number.bitAnd flags 0x60 = 0) :
    let request := AccessFlags.ofInt flags
    let x := fun entries => (s.setValues t o.type entries request).2
    let sets := fun entries => t.assignments o.type entries request
    outcome (x values) o = .ok () ∧
      (∀ a, (state (x values) o).own? t a = (Table.find? (sets values).reverse a).or (o.own? t a)) ∧
      (∀ name v, (∃ fault, outcome (s.setValue t o.type name v request).2 o = .error fault) ↔
        t.settable? o.type name request = none) ∧
      state (x values) o =
        state (x (values.filter fun e => (t.settable? o.type e.1 request).isSome)) o ∧
      ∀ entries, entries.Perm values → (Table.keys (sets values)).Nodup →
        ∀ a, (state (x entries) o).own? t a = (state (x values) o).own? t a := by
  intro request x sets
  obtain ⟨-, hwriter⟩ := AccessFlags.permits_ofInt hflags
  have hstate (entries : Table String Value) : state (x entries) o = o.assign t (sets entries) :=
    state_setValues hwriter entries o
  have hown (entries : Table String Value) (a : String) : (state (x entries) o).own? t a =
      (Table.find? (sets entries).reverse a).or (o.own? t a) := by
    rw [hstate]
    exact Instance.own?_assign (fun e => canHold_of_mem_assignments) a
  refine ⟨outcome_setValues t s.verbs values o, hown values, fun name v => ?_, ?_, ?_⟩
  · have hok : outcome (s.setValue t o.type name v request).2 o = .ok () ↔
        (t.settable? o.type name request).isSome = true := setValue_eq_ok_iff hwriter
    rw [← Option.not_isSome_iff_eq_none, ← hok]
    cases outcome (s.setValue t o.type name v request).2 o <;> simp
  · rw [hstate, hstate]
    exact congrArg (o.assign t) (assignments_filter values).symm
  · intro entries hperm hnodup a
    have hsets : (sets entries).reverse.Perm (sets values) :=
      (sets entries).reverse_perm.trans (hperm.filterMap _)
    rw [hown, hown, Table.find?_perm hsets hnodup, Table.find?_reverse hnodup]

/-- Of three entries for the guard of the vault one fails, and the other two name the same field. -/
theorem setValues_last_vaultGuard :
    let s : FieldService := ⟨⟨["get"], ["set"]⟩, {}⟩
    let request := AccessFlags.ofInt 0x9
    let values := [("secret", Value.int 1), ("door", .int 2), ("_secret", .int 3)]
    let x := (s.setValues vault vaultGuard.type values request).2
    Number.bitAnd 0x9 0x60 = 0 ∧ outcome x vaultGuard = .ok () ∧
      vault.assignments vaultGuard.type values request =
        [("_Vault__secret", .int 1), ("_Vault__secret", .int 3)] ∧
      (state x vaultGuard).own? vault "_Vault__secret" = some (.int 3) ∧
      (state x vaultGuard).own? vault "door" = none ∧
      ∃ fault, outcome (s.setValue vault vaultGuard.type "door" (.int 2) request).2 vaultGuard =
        .error fault := by
  intro s request values x
  have hflags : Number.bitAnd 0x9 0x60 = 0 := by decide
  obtain ⟨hout, hown, hfails, -⟩ := setValues_last s vault vaultGuard values hflags
  have hsecret : ∀ name ∈ ["secret", "_secret"],
      vault.settable? vaultGuard.type name request = some "_Vault__secret" := by decide +kernel
  have hdoor : vault.settable? vaultGuard.type "door" request = none := by decide +kernel
  have hsets : vault.assignments vaultGuard.type values request =
      [("_Vault__secret", .int 1), ("_Vault__secret", .int 3)] := by
    simp [values, assignments, hsecret, hdoor]
  have hheld (a : String) : (state x vaultGuard).own? vault a =
      (Table.find? (vault.assignments vaultGuard.type values request).reverse a).or
        (vaultGuard.own? vault a) := hown a
  rw [hsets] at hheld
  exact ⟨hflags, hout, hsets, (hheld "_Vault__secret").trans (by simp [Table.find?]),
    (hheld "door").trans (by cbv), (hfails "door" (.int 2)).mpr hdoor⟩

end Reflection
