import Reflection.Proofs.Class.Arity
import Reflection.Proofs.Field.Inheritance

/-!
# Accessor methods

The accessor methods of a field are chosen by their names, those that write also by the number of their
parameters. Which arguments a method requires has no part in the choice, so a method can be chosen that
cannot be called as an accessor.

## Main definitions

* `ClassTable.accessorClasses`, `ClassTable.candidates`: the methods among which accessors are chosen.

## Main statements

* `ClassTable.accessor?_reader?`, `ClassTable.accessor?_writer?`: which candidate is chosen.
* `Binding.read_wrongArguments_iff`, `Binding.write_wrongArguments_iff`: when a binding calls a method with
  a number of arguments that it does not take.
* `accessors_of_bind`: the accessors of a binding and their calls.
-/
namespace Reflection

open Access

/-! ## Candidates -/

namespace ClassTable

variable {t : ClassTable} {verbs : Verbs} {c : ClassId} {name : String} {field : Option Field}

/-- The classes that are asked for accessors of a field: that of the request, then the one that declares
the field. -/
def accessorClasses (c : ClassId) (field : Option Field) : List ClassId :=
  c :: ((field.map (·.owner.id)).filter (· ≠ c)).toList

/-- The methods that may be accessors of a field by their names, the preferred ones first. -/
def candidates (t : ClassTable) (verbs : List String) (c : ClassId) (name : String)
    (field : Option Field) : List MethodHandle :=
  (accessorClasses c field).flatMap fun c =>
    (verbs.flatMap (Field.accessorNames · name)).filterMap (t.findMethod? c)

theorem accessor?_eq_findSome? (find : ClassId → Option MethodHandle) :
    accessor? c field find = (accessorClasses c field).findSome? find := by
  rw [accessor?, accessorClasses, List.findSome?_cons]
  have hfield : (((field.map (·.owner.id)).filter (· ≠ c)).toList).findSome? find =
      field.bind fun f => if f.owner.id = c then none else find f.owner.id := by
    cases field with
    | none => rfl
    | some f => by_cases h : f.owner.id = c <;> simp [Option.filter, h]
  rw [hfield]
  cases find c <;> rfl

/-- The first candidate reads. -/
theorem accessor?_reader? : accessor? c field (t.reader? verbs name) =
    (t.candidates verbs.read c name field).head? := by
  rw [accessor?_eq_findSome?, candidates, List.head?_flatMap]
  refine congrArg (List.findSome? · _) (funext fun c => ?_)
  rw [List.head?_filterMap, reader?]

/-- The first candidate that has a parameter writes. -/
theorem accessor?_writer? : accessor? c field (t.writer? verbs name) =
    (t.candidates verbs.write c name field).find? (0 < ·.method.parameterCount) := by
  rw [accessor?_eq_findSome?, candidates, List.find?_flatMap]
  refine congrArg (List.findSome? · _) (funext fun c => ?_)
  rw [← List.head?_filter, List.filter_filterMap, List.head?_filterMap, writer?]

end ClassTable

/-! ## Calls -/

theorem Field.failsWith_read (f : Field) (t : ClassTable) :
    FailsWith (· ≠ .wrongArguments) (f.read t) := by
  intro o fault h
  rw [f.outcome_read] at h
  by_cases haccessible : f.accessible = true
  · rw [if_pos haccessible] at h
    rintro rfl
    exact failsWith_getAttribute t f.stored o _ h
  · rw [if_neg haccessible] at h
    cases h
    simp

theorem Field.failsWith_write (f : Field) (t : ClassTable) (v : Value) :
    FailsWith (· ≠ .wrongArguments) (f.write t v) := by
  intro o fault h
  rw [f.outcome_write] at h
  by_cases haccessible : f.accessible = true
  · rw [if_pos haccessible] at h
    rintro rfl
    exact failsWith_setAttribute t f.stored v o _ h
  · rw [if_neg haccessible] at h
    cases h
    simp

namespace Binding

variable (b : Binding) (t : ClassTable) (v : Value) (o : Instance)

/-- Reading fails for the number of arguments just where the method that reads does not take none. -/
theorem read_wrongArguments_iff : outcome (b.read t) o = .error .wrongArguments ↔
    ∃ m, b.reader? = some m ∧ ¬ m.method.Takes 0 := by
  rw [read]
  cases hreader : b.reader? with
  | some m => simpa using m.invoke_wrongArguments_iff t [] o
  | none =>
    cases hfield : b.field? with
    | none => simp
    | some f => simpa using fun h => f.failsWith_read t o _ h rfl

/-- Writing fails for the number of arguments just where the method that writes does not take one. -/
theorem write_wrongArguments_iff : outcome (b.write t v) o = .error .wrongArguments ↔
    ∃ m, b.writer? = some m ∧ ¬ m.method.Takes 1 := by
  rw [write]
  cases hwriter : b.writer? with
  | some m =>
    dsimp only
    rw [outcome_bind_pure]
    have hinvoke := m.invoke_wrongArguments_iff t [v] o
    cases hout : outcome (m.invoke t [v]) o <;> simpa [hout, Except.map] using hinvoke
  | none =>
    cases hfield : b.field? with
    | none => simp
    | some f => simpa using fun h => f.failsWith_write t v o _ h rfl

end Binding

/-- Accessors are chosen by their names, and those that write also by having a parameter. A binding has the
first candidate as its method that reads, where it may have one, and the first candidate with a parameter
besides its receiver as its method that writes. A candidate without a parameter is passed over for the next
one. What else a method requires has no part in the choice, so reading fails for the number of arguments
just where the method that reads cannot be called without any, and writing just where the method that writes
cannot be called with one. -/
theorem accessors_of_bind (s : FieldService) (t : ClassTable) (target : ClassTarget) (name : String)
    (flags : Int) {b : Binding} (h : (s.bind t target name (.ofInt flags)).2 = .ok b) :
    let request := AccessFlags.ofInt flags
    let field := t.locate? target.type name request.exposesInherited
    let candidates := fun verbs => t.candidates verbs target.type (Field.publicName name) field
    b.reader? = (if request.usesReader field then (candidates s.verbs.read).head? else none) ∧
      b.writer? = (if request.usesWriter field then
        (candidates s.verbs.write).find? (0 < ·.method.parameterCount) else none) ∧
      ∀ o, (outcome (b.read t) o = .error .wrongArguments ↔
          ∃ m, b.reader? = some m ∧ ¬ m.method.Takes 0) ∧
        ∀ v, outcome (b.write t v) o = .error .wrongArguments ↔
          ∃ m, b.writer? = some m ∧ ¬ m.method.Takes 1 := by
  intro request field candidates
  have hchoose : b = t.choose s.verbs target.type (Field.publicName name) field request :=
    ClassTable.eq_choose_of_bind h
  refine ⟨?_, ?_, fun o => ⟨b.read_wrongArguments_iff t o, fun v => b.write_wrongArguments_iff t v o⟩⟩
  · rw [hchoose, ClassTable.choose, Binding.reader?_ofParts, ClassTable.accessor?_reader?]
  · rw [hchoose, ClassTable.choose, Binding.writer?_ofParts, ClassTable.accessor?_writer?]

/-- A method of objects whose parameters all require arguments. -/
def requiring (parameters : List String) (body : MethodBody) : Method :=
  ⟨.ofObject, ("self" :: parameters).map (⟨·, .required⟩), body, none⟩

/-- A class with two methods that are named as ones that read a field, and two that are named as ones that
write another one. The first of each pair takes one argument too many. -/
def lamp : ClassDescription where
  name := "Lamp"
  space := "zoo"
  path := "Lamp"
  hints := [("enabled", .none), ("level", .none)]
  entries := [("is_enabled", .method (requiring ["value"] (.set "enabled"))),
    ("isEnabled", .method (requiring [] (.get "enabled"))),
    ("set_level", .method (requiring ["unit", "value"] (.set "level"))),
    ("setLevel", .method (requiring ["value"] (.set "level")))]

/-- The table with this class. -/
def lamps : ClassTable where
  classes := [{ ClassTable.plainClass 0 "Lamp" [] ["enabled", "level"] with
    entries := lamp.entries }]
  members := [(("zoo", "Lamp"), 0)]

/-- A field of lamps. -/
def lampField (name : String) : Field := ⟨⟨0, "Lamp", "zoo", "Lamp"⟩, name, .none, true⟩

/-- A method of lamps. -/
def lampMethod (name : String) (parameters : List String) (body : MethodBody) : MethodHandle :=
  ⟨⟨0, "Lamp", "zoo", "Lamp"⟩, name, requiring parameters body⟩

theorem candidates_enabled :
    lamps.candidates ["get", "is"] 0 "enabled" (some (lampField "enabled")) =
      [lampMethod "is_enabled" ["value"] (.set "enabled"),
        lampMethod "isEnabled" [] (.get "enabled")] := by
  have hnames : ["get", "is"].flatMap (Field.accessorNames · "enabled") =
      ["get_enabled", "getEnabled", "is_enabled", "isEnabled"] := by decide +kernel
  have hclasses : ClassTable.accessorClasses 0 (some (lampField "enabled")) = [0] := rfl
  rw [ClassTable.candidates, hclasses, List.flatMap_singleton, hnames]
  cbv

theorem candidates_level :
    lamps.candidates ["set", "is"] 0 "level" (some (lampField "level")) =
      [lampMethod "set_level" ["unit", "value"] (.set "level"),
        lampMethod "setLevel" ["value"] (.set "level")] := by
  have hnames : ["set", "is"].flatMap (Field.accessorNames · "level") =
      ["set_level", "setLevel", "is_level", "isLevel"] := by decide +kernel
  have hclasses : ClassTable.accessorClasses 0 (some (lampField "level")) = [0] := rfl
  rw [ClassTable.candidates, hclasses, List.flatMap_singleton, hnames]
  cbv

/-- Requests for the public fields of lamps get bindings. -/
theorem bind_lamps (s : FieldService) {name : String} {flags : AccessFlags}
    (h : lamps.locate? 0 name flags.exposesInherited = some (lampField name)) :
    (s.bind lamps ⟨0, false⟩ name flags).2 =
      .ok (lamps.choose s.verbs 0 (Field.publicName name) (some (lampField name)) flags) := by
  refine ClassTable.bindName_of_accessible h ?_
  simp [AccessFlags.exposed, apply_ite Field.accessible, lampField]

/-- The field of a lamp is read through the method that takes a value, and that call fails. -/
theorem accessors_of_bind_lamps :
    let s : FieldService := ⟨⟨["get", "is"], ["set", "is"]⟩, {}⟩
    let o : Instance := { type := 0, attributes := [("enabled", .bool true)] }
    ∃ b, (s.bind lamps ⟨0, false⟩ "enabled" (.ofInt 0x440)).2 = .ok b ∧
      b.reader? = some (lampMethod "is_enabled" ["value"] (.set "enabled")) ∧
      outcome (b.read lamps) o = .error .wrongArguments := by
  intro s o
  have hlocated : lamps.locate? 0 "enabled" (AccessFlags.ofInt 0x440).exposesInherited =
      some (lampField "enabled") := by decide +kernel
  have hname : Field.publicName "enabled" = "enabled" := by decide +kernel
  obtain ⟨hreader, -, hcalls⟩ :=
    accessors_of_bind s lamps ⟨0, false⟩ "enabled" 0x440 (bind_lamps s hlocated)
  dsimp only at hreader
  rw [hlocated, hname, if_pos (by decide +kernel), candidates_enabled] at hreader
  exact ⟨_, bind_lamps s hlocated, hreader, (hcalls o).1.mpr ⟨_, hreader, by decide⟩⟩

/-- A method can be chosen that cannot be called as an accessor, although the next candidate can. -/
theorem uncallable_accessors_lamps :
    let s : FieldService := ⟨⟨["get", "is"], ["set", "is"]⟩, {}⟩
    let o : Instance := { type := 0, attributes := [("enabled", .bool true), ("level", .int 1)] }
    let enabled := lamps.candidates s.verbs.read 0 "enabled" (some (lampField "enabled"))
    let level := lamps.candidates s.verbs.write 0 "level" (some (lampField "level"))
    ClassTable.define {} lamp = .ok (lamps, 0) ∧
      enabled.map (fun m => (m.name, decide (m.method.Takes 0))) =
        [("is_enabled", false), ("isEnabled", true)] ∧
      level.map (fun m => (m.name, decide (m.method.Takes 1))) =
        [("set_level", false), ("setLevel", true)] ∧
      (∃ b, (s.bind lamps ⟨0, false⟩ "enabled" (.ofInt 0x440)).2 = .ok b ∧ b.canRead = true ∧
        b.reader? = enabled.head? ∧ outcome (b.read lamps) o = .error .wrongArguments) ∧
      ∃ b, (s.bind lamps ⟨0, false⟩ "level" (.ofInt 0x220)).2 = .ok b ∧ b.canWrite = true ∧
        b.writer? = level.head? ∧ outcome (b.write lamps (.int 5)) o = .error .wrongArguments := by
  intro s o enabled level
  have henabled : lamps.locate? 0 "enabled" (AccessFlags.ofInt 0x440).exposesInherited =
      some (lampField "enabled") := by decide +kernel
  have hlevel : lamps.locate? 0 "level" (AccessFlags.ofInt 0x220).exposesInherited =
      some (lampField "level") := by decide +kernel
  refine ⟨by cbv, ?_, ?_, ⟨_, bind_lamps s henabled, ?_⟩, ⟨_, bind_lamps s hlevel, ?_⟩⟩
  · simp only [enabled, s, candidates_enabled]
    decide
  · simp only [level, s, candidates_level]
    decide
  · have hname : Field.publicName "enabled" = "enabled" := by decide +kernel
    have hreader : (lamps.choose s.verbs 0 (Field.publicName "enabled") (some (lampField "enabled"))
        (.ofInt 0x440)).reader? = enabled.head? := by
      rw [ClassTable.choose, Binding.reader?_ofParts, if_pos (by decide +kernel),
        ClassTable.accessor?_reader?, hname]
    have hfirst : enabled.head? = some (lampMethod "is_enabled" ["value"] (.set "enabled")) :=
      congrArg List.head? candidates_enabled
    refine ⟨by simp [Binding.canRead, hreader, hfirst], hreader, ?_⟩
    exact (Binding.read_wrongArguments_iff ..).mpr ⟨_, hreader.trans hfirst, by decide⟩
  · have hname : Field.publicName "level" = "level" := by decide +kernel
    have hwriter : (lamps.choose s.verbs 0 (Field.publicName "level") (some (lampField "level"))
        (.ofInt 0x220)).writer? = level.find? (0 < ·.method.parameterCount) := by
      rw [ClassTable.choose, Binding.writer?_ofParts, if_pos (by decide +kernel),
        ClassTable.accessor?_writer?, hname]
    have hfirst : level.find? (0 < ·.method.parameterCount) =
        some (lampMethod "set_level" ["unit", "value"] (.set "level")) :=
      congrArg (List.find? _) candidates_level
    have hhead : level.head? = some (lampMethod "set_level" ["unit", "value"] (.set "level")) :=
      congrArg List.head? candidates_level
    rw [hfirst] at hwriter
    refine ⟨by simp [Binding.canWrite, hwriter], hwriter.trans hhead.symm, ?_⟩
    exact (Binding.write_wrongArguments_iff ..).mpr ⟨_, hwriter, by decide⟩

end Reflection
