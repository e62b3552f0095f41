import Reflection.Proofs.Field.AllValues
import Reflection.Proofs.Field.Assignment

/-!
# Missing values

Whether a field can be read is told by its declaration, by the methods of the class and by the request;
whether there is a value to read shows on the object alone. So to read all fields of an object is to use
those that can be read, one after the other, and the first use that fails ends it: nothing is left out
for want of a value.

## Main definitions

* `Access.readUses`: the uses that reading all fields consists of.
* `Access.given`: what uses give when those that fail are left out.
* `Access.firstFault?`: the fault of the first use that fails.
* `Access.directReads`: the fields that are read when no methods are permitted.

## Main statements

* `Access.outcome_getValues_eq`: reading all fields gives what the uses give, or the first fault.
* `Access.firstFault?_gets`: uses that get attributes fail for the first one that is missing.
* `getValues_missing`: when reading all fields fails, and what it gives otherwise.
-/
namespace Reflection

open ClassTable

namespace Access

variable {t : ClassTable} {verbs : Verbs} {o : Instance} {flags : AccessFlags} {c : ClassId}

/-- The uses of all fields that can be read, under their names, level by level. -/
def readUses (t : ClassTable) (verbs : Verbs) (c : ClassId) (flags : AccessFlags) :
    List (String × FieldUse) :=
  (levels t c flags.withoutNeeds).flatMap fun level => (t.fields level.1).filterMap fun f =>
    (t.choose verbs c f.name (some f) level.2).readUse?.map (f.name, ·)

/-- What uses give under their names, one after the other; those that fail are left out. -/
def given (t : ClassTable) : Instance → List (String × FieldUse) → List (String × Value)
  | _, [] => []
  | o, (name, u) :: rest =>
    ((outcome (u.perform t) o).toOption.map (name, ·)).toList ++ given t (state (u.perform t) o) rest

/-- The fault of the first one that fails of uses, one after the other. -/
def firstFault? (t : ClassTable) : Instance → List (String × FieldUse) → Option AccessFault
  | _, [] => none
  | o, (_, u) :: rest =>
    match outcome (u.perform t) o with
    | .ok _ => firstFault? t (state (u.perform t) o) rest
    | .error fault => some fault

/-- The values that uses give, written into a table; the first fault ends it. -/
def useAll (t : ClassTable) (values : Table String Value) (uses : List (String × FieldUse)) :
    Access (Table String Value) :=
  uses.foldlM (fun values e => do return Table.insert values e.1 (← e.2.perform t)) values

/-! ## Uses one after the other -/

/-- To read a field writes what its use gives, if it can be read. -/
theorem getReadable_eq_useAll (hneeds : flags.withoutNeeds = flags) (values : Table String Value)
    (f : Field) : getReadable t verbs c values (f, flags) =
      useAll t values ((t.choose verbs c f.name (some f) flags).readUse?.map (f.name, ·)).toList := by
  unfold getReadable
  dsimp only
  rw [bind_of_withoutNeeds hneeds, ofExcept, pure_bind, ← Binding.isSome_readUse?]
  cases huse : (t.choose verbs c f.name (some f) flags).readUse? with
  | none => rfl
  | some u =>
    rw [Option.isSome_some, if_pos rfl, Binding.read_eq huse]
    simp [useAll]

theorem useAll_append (values : Table String Value) (uses uses' : List (String × FieldUse)) :
    useAll t values (uses ++ uses') = useAll t values uses >>= fun values => useAll t values uses' :=
  List.foldlM_append ..

/-- To read fields one after the other is to use those that can be read. -/
theorem foldlM_getReadable_eq_useAll {requests : List (Field × AccessFlags)}
    (hneeds : ∀ r ∈ requests, r.2.withoutNeeds = r.2) (values : Table String Value) :
    requests.foldlM (getReadable t verbs c) values =
      useAll t values (requests.filterMap fun r =>
        (t.choose verbs c r.1.name (some r.1) r.2).readUse?.map (r.1.name, ·)) := by
  induction requests generalizing values with
  | nil => rfl
  | cons request rest ih =>
    obtain ⟨f, flags⟩ := request
    obtain ⟨hfirst, hrest⟩ := List.forall_mem_cons.mp hneeds
    rw [List.foldlM_cons, getReadable_eq_useAll hfirst, List.filterMap_cons]
    simp only [ih hrest]
    rw [← useAll_append]
    cases (t.choose verbs c f.name (some f) flags).readUse? <;> rfl

/-- Uses give a table of what each of them gives, or the fault of the first one that fails. -/
theorem outcome_useAll (values : Table String Value) (uses : List (String × FieldUse)) (o : Instance) :
    outcome (useAll t values uses) o =
      match firstFault? t o uses with
      | some fault => .error fault
      | none => .ok (Table.insertAll values (given t o uses)) := by
  induction uses generalizing values o with
  | nil => rfl
  | cons e rest ih =>
    obtain ⟨name, u⟩ := e
    have hstep : useAll t values ((name, u) :: rest) =
        u.perform t >>= fun v => useAll t (Table.insert values name v) rest := by
      simp [useAll]
    rw [hstep, outcome_bind, firstFault?, given]
    cases outcome (u.perform t) o with
    | error fault => rfl
    | ok v => exact ih _ _

theorem withoutNeeds_of_mem_levels {level : ClassId × AccessFlags}
    (h : level ∈ levels t c flags.withoutNeeds) : level.2.withoutNeeds = level.2 := by
  obtain ⟨-, hflags | hflags⟩ := mem_of_mem_levels h <;> exact hflags ▸ rfl

/-- To read all fields of an object is to use those that can be read. -/
theorem outcome_getValues_eq (t : ClassTable) (verbs : Verbs) (flags : AccessFlags) (o : Instance) :
    outcome (getValues t verbs flags) o =
      match firstFault? t o (readUses t verbs o.type flags) with
      | some fault => .error fault
      | none => .ok (Table.ofEntries (given t o (readUses t verbs o.type flags))) := by
  have huses : readUses t verbs o.type flags =
      ((levels t o.type flags.withoutNeeds).flatMap fun level =>
        (t.fields level.1).map (·, level.2)).filterMap fun r =>
          (t.choose verbs o.type r.1.name (some r.1) r.2).readUse?.map (r.1.name, ·) := by
    simp only [readUses, List.filterMap_flatMap, List.filterMap_map]
    rfl
  have hneeds : ∀ r ∈ (levels t o.type flags.withoutNeeds).flatMap fun level =>
      (t.fields level.1).map (·, level.2), r.2.withoutNeeds = r.2 := by
    intro r hr
    obtain ⟨level, hlevel, hr⟩ := List.mem_flatMap.mp hr
    obtain ⟨f, -, rfl⟩ := List.mem_map.mp hr
    exact withoutNeeds_of_mem_levels hlevel
  rw [huses, Table.ofEntries, ← outcome_useAll, ← foldlM_getReadable_eq_useAll hneeds]
  exact outcome_bind ..

theorem outcome_getValues_eq_ok_iff {values : Table String Value} :
    outcome (getValues t verbs flags) o = .ok values ↔
      firstFault? t o (readUses t verbs o.type flags) = none ∧
        values = Table.ofEntries (given t o (readUses t verbs o.type flags)) := by
  rw [outcome_getValues_eq]
  cases firstFault? t o (readUses t verbs o.type flags) <;> simp [eq_comm]

theorem outcome_getValues_eq_error_iff {fault : AccessFault} :
    outcome (getValues t verbs flags) o = .error fault ↔
      firstFault? t o (readUses t verbs o.type flags) = some fault := by
  rw [outcome_getValues_eq]
  cases firstFault? t o (readUses t verbs o.type flags) <;> simp

/-- Where no use fails, each of them gives a value under its name. -/
theorem keys_given {uses : List (String × FieldUse)} (h : firstFault? t o uses = none) :
    Table.keys (given t o uses) = uses.map Prod.fst := by
  induction uses generalizing o with
  | nil => rfl
  | cons e rest ih =>
    obtain ⟨name, u⟩ := e
    rw [firstFault?] at h
    rw [given]
    cases hout : outcome (u.perform t) o with
    | error fault =>
      rw [hout] at h
      cases h
    | ok v =>
      rw [hout] at h
      have hrest := ih h
      simpa [Table.keys, Except.toOption] using hrest

/-- The first fault of uses is that of the first ones or, where there is none, of the others. -/
theorem firstFault?_append (before after : List (String × FieldUse)) :
    firstFault? t o (before ++ after) = (firstFault? t o before).or
      (firstFault? t (FieldUse.after t o (before.map Prod.snd)) after) := by
  induction before generalizing o with
  | nil => rfl
  | cons e rest ih =>
    obtain ⟨name, u⟩ := e
    rw [List.cons_append, firstFault?, firstFault?]
    cases outcome (u.perform t) o with
    | error fault => rfl
    | ok v => exact ih

theorem mem_readUses_iff {key : String} :
    key ∈ (readUses t verbs c flags).map Prod.fst ↔
      ∃ level ∈ levels t c flags.withoutNeeds, ∃ f ∈ t.fields level.1, f.name = key ∧
        (t.choose verbs c f.name (some f) level.2).canRead = true := by
  simp only [← Binding.isSome_readUse?, Option.isSome_iff_exists]
  constructor
  · intro h
    obtain ⟨e, he, rfl⟩ := List.mem_map.mp h
    obtain ⟨level, hlevel, he⟩ := List.mem_flatMap.mp he
    obtain ⟨f, hf, he⟩ := List.mem_filterMap.mp he
    obtain ⟨u, hu, rfl⟩ := Option.map_eq_some_iff.mp he
    exact ⟨level, hlevel, f, hf, rfl, u, hu⟩
  · rintro ⟨level, hlevel, f, hf, rfl, u, hu⟩
    refine List.mem_map.mpr ⟨(f.name, u), ?_, rfl⟩
    exact List.mem_flatMap.mpr ⟨level, hlevel, List.mem_filterMap.mpr ⟨f, hf, by rw [hu]; rfl⟩⟩

/-! ## Attributes -/

/-- The fields that are read when no methods are permitted, level by level: those that give access. -/
def directReads (t : ClassTable) (c : ClassId) (flags : AccessFlags) : List Field :=
  (levels t c flags.withoutNeeds).flatMap fun level =>
    ((t.fields level.1).map level.2.exposed).filter (·.accessible)

/-- The values of fields that an object has, under their names. -/
def valuesOf (t : ClassTable) (o : Instance) (fs : List Field) : List (String × Value) :=
  fs.filterMap fun f => (o.get? t f.stored).map (f.name, ·)

theorem outcome_getAttribute_eq (name : String) :
    outcome (getAttribute t name) o =
      match o.get? t name with
      | some v => .ok v
      | none => .error (.noAttribute name) := by
  simp only [getAttribute, outcome_bind, outcome_get, state_get]
  cases o.get? t name <;> rfl

/-- Without methods a field is read just where it gives access, and then by its attribute. -/
theorem readUse?_eq_get (h : flags.permitsReader = false) (f : Field) :
    (t.choose verbs c f.name (some f) flags).readUse?.map (f.name, ·) =
      if (flags.exposed f).accessible then
        some ((flags.exposed f).name, .get (flags.exposed f))
      else none := by
  have hname : (flags.exposed f).name = f.name := by
    unfold AccessFlags.exposed
    split_ifs <;> rfl
  rw [readUse?_choose h, Option.map_some, hname, Option.filter_some]
  split_ifs <;> rfl

/-- Without methods, to read all fields is to get the attributes of those that give access. -/
theorem readUses_eq_gets (h : flags.permitsReader = false) :
    readUses t verbs c flags = (directReads t c flags).map fun f => (f.name, .get f) := by
  unfold readUses directReads
  rw [List.map_flatMap]
  refine List.flatMap_congr fun level hlevel => ?_
  have hpermits : level.2.permitsReader = false := by
    obtain ⟨-, hflags | hflags⟩ := mem_of_mem_levels hlevel <;> rw [hflags] <;> exact h
  induction t.fields level.1 with
  | nil => rfl
  | cons f rest ih =>
    rw [List.filterMap_cons, ih, readUse?_eq_get hpermits, List.map_cons, List.filter_cons]
    split_ifs <;> rfl

/-- Uses that get attributes fail for the first one that is missing. -/
theorem firstFault?_gets (fs : List Field) :
    firstFault? t o (fs.map fun f => (f.name, .get f)) =
      (fs.find? fun f => (o.get? t f.stored).isNone).map fun f => .noAttribute f.stored := by
  induction fs with
  | nil => rfl
  | cons f rest ih =>
    rw [List.map_cons, firstFault?, FieldUse.perform, outcome_getAttribute_eq, state_getAttribute, ih,
      List.find?_cons]
    cases o.get? t f.stored <;> rfl

/-- Uses that get attributes give the values that there are. -/
theorem given_gets (fs : List Field) :
    given t o (fs.map fun f => (f.name, .get f)) = valuesOf t o fs := by
  induction fs with
  | nil => rfl
  | cons f rest ih =>
    rw [List.map_cons, given, FieldUse.perform, outcome_getAttribute_eq, state_getAttribute, ih, valuesOf,
      valuesOf, List.filterMap_cons]
    cases o.get? t f.stored <;> rfl

/-- All the attributes of fields are there, or a first one is missing. -/
theorem find?_missing_eq_none_iff (fs : List Field) :
    (fs.find? fun f => (o.get? t f.stored).isNone) = none ↔
      ∀ f ∈ fs, (o.get? t f.stored).isSome = true := by
  simp [List.find?_eq_none, Option.isSome_iff_ne_none]

theorem find?_missing_eq_some_iff {fs : List Field} {f : Field} :
    (fs.find? fun f => (o.get? t f.stored).isNone) = some f ↔
      o.get? t f.stored = none ∧ ∃ before later, fs = before ++ f :: later ∧
        ∀ g ∈ before, (o.get? t g.stored).isSome = true := by
  simp [List.find?_eq_some_iff_append]

end Access

open Access

/-- Whether all fields of an object are read depends on its values. Each field that can be read, by its
declaration and the methods of the class, is used once at its level, and the names of these fields are the
keys of the result. The first use that fails is the fault of the whole request, so that a field without a
value, if nothing fails before it, leaves no result. There is one just where no use fails, and it has all
that the uses give.

Where no methods are permitted, there is a result just where every field that gives access has a value.
Otherwise the fault is the missing attribute of the first one that has none. Fields that give no access
have no part in it, with or without a value. -/
theorem getValues_missing (s : FieldService) (t : ClassTable) (o : Instance) (flags : Int) :
    let request := AccessFlags.ofInt flags
    let x := (s.getValues t o.type request).2
    let uses := readUses t s.verbs o.type request
    let reads := directReads t o.type request
    (∀ values, outcome x o = .ok values ↔
      firstFault? t o uses = none ∧ values = Table.ofEntries (given t o uses)) ∧
    (∀ fault, outcome x o = .error fault ↔ firstFault? t o uses = some fault) ∧
    (∀ values, outcome x o = .ok values → ∀ key, key ∈ Table.keys values ↔
      ∃ level ∈ levels t o.type request.withoutNeeds, ∃ f ∈ t.fields level.1, f.name = key ∧
        (t.choose s.verbs o.type f.name (some f) level.2).canRead = true) ∧
    (∀ before name f later, uses = before ++ (name, .get f) :: later → firstFault? t o before = none →
      (FieldUse.after t o (before.map Prod.snd)).get? t f.stored = none →
        outcome x o = .error (.noAttribute f.stored)) ∧
    (request.permitsReader = false →
      (∀ values, outcome x o = .ok values ↔ (∀ f ∈ reads, (o.get? t f.stored).isSome = true) ∧
        values = Table.ofEntries (valuesOf t o reads)) ∧
      (∀ fault, outcome x o = .error fault ↔ ∃ before f later, reads = before ++ f :: later ∧
        (∀ g ∈ before, (o.get? t g.stored).isSome = true) ∧ o.get? t f.stored = none ∧
        fault = .noAttribute f.stored) ∧
      ∀ o' : Instance, o'.type = o.type → (∀ f ∈ reads, o'.get? t f.stored = o.get? t f.stored) →
        outcome x o' = outcome x o) := by
  intro request x uses reads
  have hok (values : Table String Value) : outcome x o = .ok values ↔
      firstFault? t o uses = none ∧ values = Table.ofEntries (given t o uses) :=
    outcome_getValues_eq_ok_iff
  have herror (fault : AccessFault) :
      outcome x o = .error fault ↔ firstFault? t o uses = some fault := outcome_getValues_eq_error_iff
  refine ⟨hok, herror, fun values hvalues key => ?_, ?_, fun hpermits => ?_⟩
  · obtain ⟨hnone, rfl⟩ := (hok values).mp hvalues
    rw [Table.mem_keys_ofEntries_iff, keys_given hnone, mem_readUses_iff]
  · intro before name f later huses hbefore hmissing
    rw [herror, huses, firstFault?_append, hbefore, Option.none_or, firstFault?, FieldUse.perform,
      outcome_getAttribute_eq, hmissing]
  have huses : uses = reads.map fun f => (f.name, .get f) := readUses_eq_gets hpermits
  refine ⟨fun values => ?_, fun fault => ?_, fun o' htype hreads => ?_⟩
  · rw [hok, huses, firstFault?_gets, given_gets, Option.map_eq_none_iff, find?_missing_eq_none_iff]
  · rw [herror, huses, firstFault?_gets, Option.map_eq_some_iff]
    constructor
    · rintro ⟨f, hf, rfl⟩
      obtain ⟨hmissing, before, later, hsplit, hbefore⟩ := find?_missing_eq_some_iff.mp hf
      exact ⟨before, f, later, hsplit, hbefore, hmissing, rfl⟩
    · rintro ⟨before, f, later, hsplit, hbefore, hmissing, rfl⟩
      exact ⟨f, find?_missing_eq_some_iff.mpr ⟨hmissing, before, later, hsplit, hbefore⟩, rfl⟩
  · have hsame (o' : Instance) (htype : o'.type = o.type) : outcome x o' =
        match firstFault? t o' uses with
        | some fault => .error fault
        | none => .ok (Table.ofEntries (given t o' uses)) := by
      have hall := outcome_getValues_eq t s.verbs request o'
      rwa [htype] at hall
    have hmissing : (reads.find? fun f => (o'.get? t f.stored).isNone) =
        reads.find? fun f => (o.get? t f.stored).isNone := by
      refine List.find?_congr fun f hf => ?_
      rw [hreads f hf]
    have hvalues : valuesOf t o' reads = valuesOf t o reads := by
      refine List.filterMap_congr fun f hf => ?_
      rw [hreads f hf]
    rw [hsame o' htype, hsame o rfl, huses, firstFault?_gets, firstFault?_gets, given_gets, given_gets,
      hmissing, hvalues]

/-- A class `Pet` with a public and a protected field. -/
def petTable : ClassTable where
  classes := [plainClass 0 "Pet" [] ["name", "_age"]]

/-- A pet without an age. -/
def puppy : Instance where
  type := 0
  attributes := [("name", .int 1)]

/-- The age that is missing is of no account to a request that does not expose it, and leaves no result
where it is exposed. -/
theorem getValues_missing_puppy :
    let s : FieldService := ⟨⟨[], []⟩, {}⟩
    let exposing := AccessFlags.ofInt 0x1
    (AccessFlags.ofInt 0).permitsReader = false ∧
      outcome (s.getValues petTable puppy.type (.ofInt 0)).2 puppy = .ok [("name", .int 1)] ∧
      (directReads petTable puppy.type exposing).map (fun f => (f.name, f.stored)) =
        [("name", "name"), ("age", "_age")] ∧
      outcome (s.getValues petTable puppy.type exposing).2 puppy = .error (.noAttribute "_age") := by
  intro s exposing
  obtain ⟨-, -, -, -, hplain⟩ := getValues_missing s petTable puppy 0
  obtain ⟨-, -, -, -, hexposing⟩ := getValues_missing s petTable puppy 0x1
  let name : Field := ⟨⟨0, "Pet", "zoo", "Pet"⟩, "name", .none, true⟩
  let age : Field := ⟨⟨0, "Pet", "zoo", "Pet"⟩, "_age", .none, true⟩
  have hreads : directReads petTable puppy.type (.ofInt 0) = [name] := by decide +kernel
  have hall : directReads petTable puppy.type exposing = [name, age] := by decide +kernel
  have hname : puppy.get? petTable name.stored = some (.int 1) := by cbv
  have hage : puppy.get? petTable age.stored = none := by cbv
  have hset : (puppy.get? petTable name.stored).isSome = true := by rw [hname, Option.isSome_some]
  refine ⟨rfl, ((hplain rfl).1 _).mpr ?_, ?_, ((hexposing rfl).2.1 _).mpr ?_⟩
  · rw [hreads]
    refine ⟨List.forall_mem_singleton.mpr hset, ?_⟩
    simp only [valuesOf, List.filterMap_cons, List.filterMap_nil, hname, Option.map_some]
    cbv
  · rw [hall]
    decide +kernel
  · refine ⟨[name], age, [], hall, List.forall_mem_singleton.mpr hset, hage, ?_⟩
    decide +kernel

end Reflection
