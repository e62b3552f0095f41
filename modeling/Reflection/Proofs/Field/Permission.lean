import Reflection.Proofs.Field.Inheritance

/-!
# Permissions

A request that permits all that another one permits gets at least the access of the other one. It
locates the same field, or a private one where the other one locates none, and methods are looked for
under the name, not for the field.

## Main definitions

* `AccessFlags.Extends`: a request permits what another one permits.
* `AccessFlags.Grants`: access by a method or by the field itself.

## Main statements

* `ClassTable.isPrivate_of_locate?`: only private fields are located for a class that does not find them.
* `AccessFlags.Grants.mono`: more permissions take no access away.
* `bind_mono`: the bindings of a name under two requests.
-/
namespace Reflection

variable {c : ClassId} {name : String} {flags more : AccessFlags}

/-! ## Requests -/

namespace AccessFlags

/-- A request permits what another one permits. Needs do not count. -/
structure Extends (more flags : AccessFlags) : Prop where
  hidden : flags.exposesHidden = true → more.exposesHidden = true
  inherited : flags.exposesInherited = true → more.exposesInherited = true
  reader : flags.permitsReader = true → more.permitsReader = true
  writer : flags.permitsWriter = true → more.permitsWriter = true
  forcedReader : flags.forcesReader = true → more.forcesReader = true
  forcedWriter : flags.forcesWriter = true → more.forcesWriter = true

theorem testBit_of_covers {m n : Int} (h : covers m n = true) (i : Nat) (hn : n.testBit i = true) :
    m.testBit i = true := by
  have hbit := congrArg (Int.testBit · i) (beq_iff_eq.mp h)
  rw [Number.testBit_bitAnd, hn, Bool.and_true] at hbit
  exact hbit

theorem extends_of_covers {m n : Int} (h : covers m n = true) : (ofInt m).Extends (ofInt n) := by
  have hbit := testBit_of_covers h
  rw [ofInt_eq, ofInt_eq]
  exact ⟨hbit 0, hbit 3, hbit 6, hbit 5, hbit 10, hbit 9⟩

/-- A request that has none of the bits of its needs has no needs. -/
theorem withoutNeeds_ofInt {n : Int} (h : Number.bitAnd n 0x6 = 0) :
    (ofInt n).withoutNeeds = ofInt n := by
  have hbit {i : Nat} (hneed : (0x6 : Int).testBit i = true) : n.testBit i = false :=
    Number.testBit_of_bitAnd_eq_zero h hneed
  rw [ofInt_eq, withoutNeeds, hbit (i := 1) (by decide), hbit (i := 2) (by decide)]

/-- A request that has none of the bits for methods permits none. -/
theorem permits_ofInt {n : Int} (h : Number.bitAnd n 0x60 = 0) :
    (ofInt n).permitsReader = false ∧ (ofInt n).permitsWriter = false := by
  rw [ofInt_eq]
  exact ⟨Number.testBit_of_bitAnd_eq_zero h (by decide),
    Number.testBit_of_bitAnd_eq_zero h (by decide)⟩

/-- Access is granted by a method, where methods are permitted and, for a public field, forced, or by
the field as it is after the request. -/
def Grants (flags : AccessFlags) (permits forces : Bool) (c : ClassId)
    (find : ClassId → Option MethodHandle) (field : Option Field) : Prop :=
  (permits = true ∧ (forces = true ∨ field.any Field.isPublic = false) ∧
    (ClassTable.accessor? c field find).isSome = true) ∨
  ∃ f, field = some f ∧ (flags.exposed f).accessible = true

theorem accessible_exposed_iff (flags : AccessFlags) (f : Field) :
    (flags.exposed f).accessible = true ↔
      f.accessible = true ∨ flags.exposesHidden = true ∧ f.isPublic = false := by
  unfold exposed
  split_ifs with h
  · exact iff_of_true rfl (.inr (by simpa using h))
  · have hdirect : ¬ (flags.exposesHidden = true ∧ f.isPublic = false) := by simpa using h
    exact (or_iff_left hdirect).symm

end AccessFlags

/-! ## Located fields -/

namespace ClassTable

variable {t : ClassTable} {verbs : Verbs} {field : Option Field} {f : Field}

/-- Among the fields that are located for a class that does not find them there are only private ones:
the class would have inherited any other. -/
theorem isPrivate_of_locate? {inherited : Bool} (hnone : t.findField? c name = none)
    (h : t.locate? c name inherited = some f) : f.isPrivate = true := by
  by_contra hprivate
  obtain ⟨level, hlevel, hfound⟩ := List.exists_of_findSome?_eq_some h
  have hlevel : level ∈ c :: t.ancestors c := by
    cases inherited with
    | true => exact hlevel
    | false =>
      rw [List.mem_singleton.mp hlevel]
      exact List.mem_cons_self
  obtain ⟨a, ha, hown⟩ : ∃ a ∈ level :: t.ancestors level,
      Table.find? (t.ownFields a) (Field.publicName name) = some f := by
    rcases findField?_cases hfound with hown | ⟨-, -, a, ha, hown⟩
    · exact ⟨level, List.mem_cons_self, hown⟩
    · exact ⟨a, List.mem_cons_of_mem level ha, hown⟩
  rw [findField?_eq, Option.or_eq_none_iff, List.findSome?_eq_none_iff] at hnone
  rcases List.mem_cons.mp ((suffix_ancestors hlevel).subset ha) with rfl | ha
  · rw [hnone.1] at hown
    cases hown
  · have hheritable : t.heritable? (Field.publicName name) a = some f :=
      Option.filter_eq_some_iff.mpr ⟨hown, by simpa using hprivate⟩
    rw [hnone.2 a ha] at hheritable
    cases hheritable

/-- Where ancestors are searched as well, the same field is located, or a private one instead of
none. -/
theorem locate?_mono (t : ClassTable) (c : ClassId) (name : String) {inherited more : Bool}
    (h : inherited = true → more = true) :
    t.locate? c name more = t.locate? c name inherited ∨
      t.locate? c name inherited = none ∧
        ∀ f, t.locate? c name more = some f → f.isPrivate = true := by
  cases inherited with
  | true =>
    rw [h rfl]
    exact .inl rfl
  | false =>
    have hown : t.locate? c name false = t.findField? c name := by simp [locate?]
    rw [hown]
    cases hfound : t.findField? c name with
    | some f =>
      refine .inl ?_
      rw [locate?, List.findSome?_cons, hfound]
    | none => exact .inr ⟨rfl, fun f => isPrivate_of_locate? hfound⟩

/-- A request without needs gets the binding that is chosen. -/
theorem bind_of_withoutNeeds (h : flags.withoutNeeds = flags) :
    t.bind verbs c name field flags = .ok (t.choose verbs c name field flags) := by
  rw [bind_eq, ← h]
  rfl

/-- A request without needs for a name gets the binding that is chosen for the field that is located. -/
theorem bindName_of_withoutNeeds (h : flags.withoutNeeds = flags) :
    t.bindName verbs c name flags = .ok (t.choose verbs c (Field.publicName name)
      (t.locate? c name flags.exposesInherited) flags) :=
  bind_of_withoutNeeds h

theorem isSome_ite (b : Bool) (m : Option MethodHandle) :
    (if b then m else none).isSome = (b && m.isSome) := by
  cases b <;> rfl

theorem canRead_choose_iff : (t.choose verbs c name field flags).canRead = true ↔
    flags.Grants flags.permitsReader flags.forcesReader c (t.reader? verbs name) field := by
  rw [choose, Binding.canRead_ofParts, isSome_ite]
  cases field <;> simp [AccessFlags.Grants, AccessFlags.usesReader, and_assoc]

theorem canWrite_choose_iff : (t.choose verbs c name field flags).canWrite = true ↔
    flags.Grants flags.permitsWriter flags.forcesWriter c (t.writer? verbs name) field := by
  rw [choose, Binding.canWrite_ofParts, isSome_ite]
  cases field <;> simp [AccessFlags.Grants, AccessFlags.usesWriter, and_assoc]

theorem isPublic_eq_false_of_isPrivate (h : f.isPrivate = true) : f.isPublic = false := by
  have hkind : f.visibility = .privateKind := beq_iff_eq.mp h
  rw [Field.isPublic, hkind]
  rfl

/-- A method that is found for no field is found for any. -/
theorem isSome_accessor?_of_none {find : ClassId → Option MethodHandle}
    (h : (accessor? c none find).isSome = true) (field : Option Field) :
    (accessor? c field find).isSome = true := by
  have hown : (find c).isSome = true := by simpa [accessor?] using h
  rw [accessor?, Option.isSome_or, hown, Bool.true_or]

end ClassTable

/-! ## Access -/

/-- More permissions take no access to the same field away, nor access by a method where there was no
field and a private one is located instead. -/
theorem AccessFlags.Grants.mono {permits permits' forces forces' : Bool}
    {find : ClassId → Option MethodHandle} {field field' : Option Field}
    (h : flags.Grants permits forces c find field)
    (hhidden : flags.exposesHidden = true → more.exposesHidden = true)
    (hpermits : permits = true → permits' = true) (hforces : forces = true → forces' = true)
    (hfield : field' = field ∨ field = none ∧ ∀ f, field' = some f → f.isPrivate = true) :
    more.Grants permits' forces' c find field' := by
  rcases hfield with rfl | ⟨rfl, hprivate⟩
  · rcases h with ⟨hpermitted, hforced, hmethod⟩ | ⟨f, rfl, haccessible⟩
    · exact .inl ⟨hpermits hpermitted, hforced.imp_left hforces, hmethod⟩
    · rw [accessible_exposed_iff] at haccessible
      refine .inr ⟨f, rfl, (accessible_exposed_iff more f).mpr ?_⟩
      exact haccessible.imp_right fun hf => ⟨hhidden hf.1, hf.2⟩
  · rcases h with ⟨hpermitted, -, hmethod⟩ | ⟨f, hnone, -⟩
    · refine .inl ⟨hpermits hpermitted, .inr ?_, ClassTable.isSome_accessor?_of_none hmethod field'⟩
      cases field' with
      | none => rfl
      | some f => exact ClassTable.isPublic_eq_false_of_isPrivate (hprivate f rfl)
    · cases hnone

/-- Permissions never take access away. If the bits of a request without needs are bits of another such
request, then both get a binding for every name in every class, and the binding of the other one can
read if that of the first one can, and can write if that of the first one can. -/
theorem bind_mono (s : FieldService) (t : ClassTable) (target : ClassTarget) (name : String)
    {flags more : Int} (hcovers : AccessFlags.covers more flags = true)
    (hflags : Number.bitAnd flags 0x6 = 0) (hmore : Number.bitAnd more 0x6 = 0) :
    ∃ b b', (s.bind t target name (.ofInt flags)).2 = .ok b ∧
      (s.bind t target name (.ofInt more)).2 = .ok b' ∧
      (b.canRead = true → b'.canRead = true) ∧ (b.canWrite = true → b'.canWrite = true) := by
  have hextends := AccessFlags.extends_of_covers hcovers
  have hchosen (n : Int) (hn : Number.bitAnd n 0x6 = 0) :
      (s.bind t target name (.ofInt n)).2 =
        .ok (t.choose s.verbs target.type (Field.publicName name)
          (t.locate? target.type name (AccessFlags.ofInt n).exposesInherited) (.ofInt n)) :=
    ClassTable.bindName_of_withoutNeeds (AccessFlags.withoutNeeds_ofInt hn)
  have hlocated := t.locate?_mono target.type name hextends.inherited
  refine ⟨_, _, hchosen flags hflags, hchosen more hmore, ?_, ?_⟩
  · rw [ClassTable.canRead_choose_iff, ClassTable.canRead_choose_iff]
    exact fun h => h.mono hextends.hidden hextends.reader hextends.forcedReader hlocated
  · rw [ClassTable.canWrite_choose_iff, ClassTable.canWrite_choose_iff]
    exact fun h => h.mono hextends.hidden hextends.writer hextends.forcedWriter hlocated

/-- A class `Vault` with a private field, and a class `Guard` under it with a method that is named as one
that reads this field. -/
def vault : ClassTable where
  classes := [ClassTable.plainClass 0 "Vault" [] ["_Vault__secret"],
    { ClassTable.plainClass 1 "Guard" [0] [] with
      entries := [("get_secret", .method ⟨.ofObject, [⟨"self", .required⟩], .const (.int 7), none⟩)] }]

/-- A guard has no field `secret`. Where ancestors are searched as well, the private one of the vault is
located, and the method of the guard still reads. -/
theorem bind_mono_vault :
    let s : FieldService := ⟨⟨["get"], ["set"]⟩, {}⟩
    AccessFlags.covers 0x48 0x40 = true ∧ Number.bitAnd 0x40 0x6 = 0 ∧ Number.bitAnd 0x48 0x6 = 0 ∧
      vault.locate? 1 "secret" false = none ∧
      (vault.locate? 1 "secret" true).map Field.isPrivate = some true ∧
      ∃ b b', (s.bind vault ⟨1, false⟩ "secret" (.ofInt 0x40)).2 = .ok b ∧
        (s.bind vault ⟨1, false⟩ "secret" (.ofInt 0x48)).2 = .ok b' ∧
        b.canRead = true ∧ b'.canRead = true := by
  intro s
  have hcovers : AccessFlags.covers 0x48 0x40 = true := by decide
  have hflags : Number.bitAnd 0x40 0x6 = 0 := by decide
  have hmore : Number.bitAnd 0x48 0x6 = 0 := by decide
  have hbound : ((vault.bindName s.verbs 1 "secret" (.ofInt 0x40)).map Binding.canRead) = .ok true := by
    decide +kernel
  obtain ⟨b, b', hb, hb', hread, -⟩ :=
    bind_mono s vault ⟨1, false⟩ "secret" hcovers hflags hmore
  have hcan : b.canRead = true := by
    rw [show vault.bindName s.verbs 1 "secret" (.ofInt 0x40) = .ok b from hb] at hbound
    exact Except.ok.inj hbound
  exact ⟨hcovers, hflags, hmore, by decide +kernel, by decide +kernel, b, b', hb, hb', hcan,
    hread hcan⟩

end Reflection
