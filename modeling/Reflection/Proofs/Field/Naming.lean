import Reflection.Proofs.Field.Inheritance

/-!
# Names of fields in their classes

The language holds a private name of a class body under a name that has the name of the class in it, and
every other name as it is written. A class declares fields by the names that its hints are held under, so
the name of the class is taken away from them again. Whether there is one to take away is told by the
spelling alone: a name that is held as it is written may be spelled in the same way, and is misread.

## Main definitions

* `IsPrivateName`, `HeldAs`: the names of a class body, and what they are held under.
* `IsMisread`: a name that is spelled like the name of a private field and is not held for one.
* `ClassTable.declaredFields`: the fields that a class declares, also those whose names are taken.

## Main statements

* `heldAs_iff`: a field is stored under the name that the language holds.
* `storedName_declaredName_iff`: which names are found again.
* `ClassTable.declares_held`: the fields that a class declares by its hints and by its slots.
-/
namespace Reflection

/-! ## Names in the body of a class -/

/-- A name with two underscores at its start and not two at its end. -/
def IsPrivateName (name : String) : Prop :=
  privateMark <+: name.toList ∧ ¬ privateMark <:+ name.toList

/-- A name that consists of underscores. -/
def IsUnderscores (name : String) : Prop := ∀ c ∈ name.toList, c = '_'

/-- The name under which a class holds a name of its body: for a private name an underscore, the name of
the class without the underscores at its start, and the name as it is written. A class whose own name
consists of underscores changes no name. -/
inductive HeldAs (className : String) : String → String → Prop
  | asWritten {name : String} (h : ¬ IsPrivateName name ∨ IsUnderscores className) :
    HeldAs className name name
  | withOwner {name owner : String} {underscores : Nat} {first : Char} {rest : List Char}
    (hprivate : IsPrivateName name) (hfirst : first ≠ '_') (howner : owner.toList = first :: rest)
    (hclass : className.toList = List.replicate underscores '_' ++ owner.toList) :
    HeldAs className name ("_" ++ owner ++ name)

/-- A name that begins like the names that private names of the class are held under, and is not one of
them: what follows makes no private name, or the class changes no name. -/
def IsMisread (className held : String) : Prop :=
  ∃ rest, rest ≠ "" ∧ held = "_" ++ Field.publicName className ++ "__" ++ rest ∧
    (¬ IsPrivateName ("__" ++ rest) ∨ IsUnderscores className)

variable {className name held rest : String}

instance (name : String) : Decidable (IsPrivateName name) := instDecidableAnd

instance (name : String) : Decidable (IsUnderscores name) := List.decidableBAll _ _

theorem ofName_eq_privateKind_iff : Visibility.ofName name = .privateKind ↔ IsPrivateName name := by
  unfold Visibility.ofName IsPrivateName
  rw [← List.isPrefixOf_iff_prefix, ← List.isSuffixOf_iff_suffix]
  split_ifs with hstart hend hone
  · simp [hend]
  · simp [hstart, hend]
  · simp [hstart]
  · simp [hstart]

theorem toList_publicName (name : String) :
    (Field.publicName name).toList = name.toList.dropWhile (· == '_') := by
  simp [Field.publicName, Text.trimStart]

theorem publicName_eq_empty_iff : Field.publicName name = "" ↔ IsUnderscores name := by
  rw [← String.toList_eq_nil_iff, toList_publicName, List.dropWhile_eq_nil_iff]
  simp [IsUnderscores]

/-- Underscores at its start have no part in the public name. -/
theorem publicName_mark (x : String) : Field.publicName ("__" ++ x) = Field.publicName x := by
  rw [← String.toList_inj, toList_publicName, toList_publicName, String.toList_append]
  rfl

theorem not_isUnderscores_of_owner {owner : String} {n : Nat} {first : Char} {tail : List Char}
    (hfirst : first ≠ '_') (howner : owner.toList = first :: tail)
    (hclass : className.toList = List.replicate n '_' ++ owner.toList) : ¬ IsUnderscores className := by
  intro h
  refine hfirst (h first ?_)
  rw [hclass, howner]
  exact List.mem_append_right _ List.mem_cons_self

/-- What is left of the name of a class behind the underscores at its start. -/
theorem publicName_of_owner {owner : String} {n : Nat} {first : Char} {tail : List Char}
    (hfirst : first ≠ '_') (howner : owner.toList = first :: tail)
    (hclass : className.toList = List.replicate n '_' ++ owner.toList) :
    Field.publicName className = owner := by
  have hdrop : (List.replicate n '_' ++ owner.toList).dropWhile (· == '_') =
      owner.toList.dropWhile (· == '_') :=
    List.dropWhile_append_of_pos fun c hc => beq_iff_eq.mpr (List.eq_of_mem_replicate hc)
  rw [← String.toList_inj, toList_publicName, hclass, hdrop, howner,
    List.dropWhile_cons_of_neg (by simpa using hfirst)]

/-- A class whose name does not consist of underscores has a name behind those at its start. -/
theorem exists_owner (h : ¬ IsUnderscores className) :
    ∃ n first tail, first ≠ '_' ∧ (Field.publicName className).toList = first :: tail ∧
      className.toList = List.replicate n '_' ++ (Field.publicName className).toList := by
  obtain ⟨first, tail, howner⟩ : ∃ first tail, (Field.publicName className).toList = first :: tail :=
    List.exists_cons_of_ne_nil fun hnil => h (publicName_eq_empty_iff.mp (String.toList_eq_nil_iff.mp hnil))
  have hfirst : first ≠ '_' := by
    have hdrop := List.head?_dropWhile_not (· == '_') className.toList
    rw [← toList_publicName, howner] at hdrop
    simpa using hdrop
  have hstart : className.toList.takeWhile (· == '_') =
      List.replicate (className.toList.takeWhile (· == '_')).length '_' :=
    List.eq_replicate_iff.mpr ⟨rfl, fun c hc => by simpa using List.mem_takeWhile_imp hc⟩
  refine ⟨(className.toList.takeWhile (· == '_')).length, first, tail, hfirst, howner, ?_⟩
  rw [← hstart, toList_publicName, List.takeWhile_append_dropWhile]

theorem storedName_of_private (hprivate : IsPrivateName name) (hclass : ¬ IsUnderscores className) :
    Field.storedName className name = "_" ++ Field.publicName className ++ name := by
  unfold Field.storedName
  exact if_pos ⟨ofName_eq_privateKind_iff.mpr hprivate, fun h => hclass (publicName_eq_empty_iff.mp h)⟩

theorem storedName_of_not (h : ¬ IsPrivateName name ∨ IsUnderscores className) :
    Field.storedName className name = name := by
  unfold Field.storedName
  refine if_neg fun ⟨hkind, howner⟩ => ?_
  rcases h with hprivate | hclass
  · exact hprivate (ofName_eq_privateKind_iff.mp hkind)
  · exact howner (publicName_eq_empty_iff.mpr hclass)

/-- A field is stored under the name that the language holds. -/
theorem heldAs_iff : HeldAs className name held ↔ held = Field.storedName className name := by
  constructor
  · rintro (h | ⟨hprivate, hfirst, howner, hclass⟩)
    · exact (storedName_of_not h).symm
    · rw [storedName_of_private hprivate (not_isUnderscores_of_owner hfirst howner hclass),
        publicName_of_owner hfirst howner hclass]
  · rintro rfl
    by_cases h : ¬ IsPrivateName name ∨ IsUnderscores className
    · rw [storedName_of_not h]
      exact .asWritten h
    · rw [not_or, not_not] at h
      obtain ⟨n, first, tail, hfirst, howner, hclass⟩ := exists_owner h.2
      rw [storedName_of_private h.1 h.2]
      exact .withOwner h.1 hfirst howner hclass

/-! ## Names that are found again -/

/-- The start of the names that private names of a class are held under is taken away. -/
theorem declaredName_of_marked (hrest : rest ≠ "")
    (hheld : held = "_" ++ Field.publicName className ++ "__" ++ rest) :
    Field.declaredName className held = "__" ++ rest := by
  unfold Field.declaredName
  generalize "_" ++ Field.publicName className ++ "__" = mark at hheld ⊢
  have hmark : held.toList = mark.toList ++ rest.toList := by
    rw [hheld, String.toList_append]
  have hlength : mark.toList.length < held.length := by
    have hpositive : 0 < rest.toList.length := List.length_pos_iff.mpr fun h =>
      hrest (String.toList_eq_nil_iff.mp h)
    rw [← String.length_toList, hmark, List.length_append]
    omega
  dsimp only
  rw [if_pos ⟨List.isPrefixOf_iff_prefix.mpr (hmark ▸ List.prefix_append _ _), hlength⟩, hmark,
    List.drop_left, String.ofList_toList]

/-- Every other name is left as it is. -/
theorem declaredName_of_not
    (h : ∀ rest, rest ≠ "" → held ≠ "_" ++ Field.publicName className ++ "__" ++ rest) :
    Field.declaredName className held = held := by
  unfold Field.declaredName
  dsimp only
  refine if_neg fun ⟨hspelled, hlength⟩ => ?_
  obtain ⟨rest, hrest⟩ := List.isPrefixOf_iff_prefix.mp hspelled
  refine h (String.ofList rest) (fun hnil => ?_) ?_
  · have hempty : rest = [] := by simpa using hnil
    rw [← String.length_toList, ← hrest, hempty, List.append_nil] at hlength
    exact Nat.lt_irrefl _ hlength
  · rw [← String.toList_inj, String.toList_append, String.toList_ofList, hrest]

/-- Behind the two underscores of a private name stands something. -/
theorem IsPrivateName.exists_rest (h : IsPrivateName name) : ∃ x, x ≠ "" ∧ name = "__" ++ x := by
  obtain ⟨⟨tail, htail⟩, hend⟩ := h
  refine ⟨String.ofList tail, fun hnil => hend ?_, ?_⟩
  · have hempty : tail = [] := by simpa using hnil
    rw [← htail, hempty, List.append_nil]
  · have hname : name = String.ofList (privateMark ++ tail) := by rw [htail, String.ofList_toList]
    rw [hname, String.ofList_append]
    rfl

/-- A private name is declared again. -/
theorem declaredName_of_private (hprivate : IsPrivateName name) (hclass : ¬ IsUnderscores className)
    (hheld : HeldAs className name held) : Field.declaredName className held = name := by
  obtain ⟨x, hx, rfl⟩ := hprivate.exists_rest
  rw [heldAs_iff, storedName_of_private hprivate hclass, ← String.append_assoc] at hheld
  exact declaredName_of_marked hx hheld

/-- A name is found again unless it is misread. -/
theorem storedName_declaredName_iff (hheld : HeldAs className name held) :
    Field.storedName className (Field.declaredName className held) = held ↔
      ¬ IsMisread className held := by
  by_cases hmarked : ∃ rest, rest ≠ "" ∧ held = "_" ++ Field.publicName className ++ "__" ++ rest
  · obtain ⟨rest, hrest, hspelled⟩ := hmarked
    rw [declaredName_of_marked hrest hspelled]
    have hmisread : IsMisread className held ↔
        ¬ IsPrivateName ("__" ++ rest) ∨ IsUnderscores className := by
      refine ⟨fun ⟨rest', _, hspelled', h⟩ => ?_, fun h => ⟨rest, hrest, hspelled, h⟩⟩
      rwa [String.append_right_inj _ |>.mp (hspelled.symm.trans hspelled')]
    rw [hmisread]
    by_cases h : ¬ IsPrivateName ("__" ++ rest) ∨ IsUnderscores className
    · refine iff_of_false (fun heq => ?_) (not_not_intro h)
      -- The declared name is shorter than the name that is held.
      rw [storedName_of_not h, hspelled] at heq
      have hlength := congrArg String.length heq
      simp only [String.length_append] at hlength
      have hunderscore : "_".length = 1 := rfl
      omega
    · refine iff_of_true ?_ h
      rw [not_or, not_not] at h
      rw [storedName_of_private h.1 h.2, hspelled, String.append_assoc, String.append_assoc,
        String.append_assoc]
  · have hmisread : ¬ IsMisread className held := fun ⟨rest, hrest, hspelled, _⟩ =>
      hmarked ⟨rest, hrest, hspelled⟩
    have hdeclared : Field.declaredName className held = held :=
      declaredName_of_not fun rest hrest hspelled => hmarked ⟨rest, hrest, hspelled⟩
    refine iff_of_true ?_ hmisread
    by_cases h : ¬ IsPrivateName name ∨ IsUnderscores className
    · obtain rfl : held = name := (heldAs_iff.mp hheld).trans (storedName_of_not h)
      rw [hdeclared, storedName_of_not h]
    · rw [not_or, not_not] at h
      rw [declaredName_of_private h.1 h.2 hheld]
      exact (heldAs_iff.mp hheld).symm

/-- A misread name is taken for the one that the declared name is, as it is written. -/
theorem IsMisread.storedName_eq (h : IsMisread className held) :
    Field.storedName className (Field.declaredName className held) =
      Field.declaredName className held := by
  obtain ⟨rest, hrest, hspelled, h⟩ := h
  rw [declaredName_of_marked hrest hspelled, storedName_of_not h]

/-! ## Fields of a class -/

namespace Field

variable {owner : ClassIdentity} {declared : String} {hint : TypeHint}

@[simp] theorem declared_ofDeclared : (ofDeclared owner declared hint).declared = declared := rfl

@[simp] theorem stored_ofDeclared :
    (ofDeclared owner declared hint).stored = storedName owner.name declared := rfl

theorem isPrivate_ofDeclared_iff :
    (ofDeclared owner declared hint).isPrivate = true ↔ IsPrivateName declared :=
  beq_iff_eq.trans ofName_eq_privateKind_iff

theorem name_ofDeclared_mark (x : String) :
    (ofDeclared owner ("__" ++ x) hint).name = publicName x := publicName_mark x

theorem read_expose (f : Field) (t : ClassTable) : f.expose.read t = Access.getAttribute t f.stored :=
  if_pos rfl

theorem write_expose (f : Field) (t : ClassTable) (v : Value) :
    f.expose.write t v = Access.setAttribute t f.stored v := if_pos rfl

end Field

namespace ClassTable

variable {t : ClassTable} {c : ClassId} {r : ClassRecord}

/-- The fields that a class declares, in order, also those whose public names are taken already. -/
def declaredFields (r : ClassRecord) : List Field :=
  (declarations r).map fun (declared, hint) => Field.ofDeclared r.identity declared hint

/-- Under a public name a class has the first field that it declares with that name. -/
theorem find?_ownFields (hr : t.record? c = some r) (key : String) :
    Table.find? (t.ownFields c) key = (declaredFields r).find? (·.name == key) := by
  unfold ownFields
  rw [hr]
  exact find?_foldl_addField [] (declaredFields r) key

theorem mem_declaredFields {declared : String} {hint : TypeHint}
    (h : (declared, hint) ∈ declarations r) :
    Field.ofDeclared r.identity declared hint ∈ declaredFields r :=
  List.mem_map.mpr ⟨(declared, hint), h, rfl⟩

theorem mem_declaredFields_of_hint {hint : TypeHint} (hmem : (held, hint) ∈ r.hints)
    (hfield : hint.isClassVariable = false) :
    Field.ofDeclared r.identity (Field.declaredName r.identity.name held) hint ∈ declaredFields r := by
  refine mem_declaredFields (List.mem_append_left _ (List.mem_filterMap.mpr ⟨(held, hint), hmem, ?_⟩))
  simp only [hfield, Bool.false_eq_true, if_false]

theorem mem_declaredFields_of_slot {slot : String} (hslot : slot ∈ r.attributeSlots) :
    Field.ofDeclared r.identity slot .none ∈ declaredFields r :=
  mem_declaredFields (List.mem_append_right _ (List.mem_map_of_mem hslot))

/-- A class declares a field for each name that a hint is held under, variables of the class left out.
Objects hold the field under that very name, and so it is read and written, unless the name is misread;
then the field is that of another attribute. A private name, in a class whose name does not consist of
underscores, is never misread: its field is private, is declared as it is written, and has what stands
behind the underscores for its public name. So has that of a slot, which objects hold as the language
does. Under each public name the class has the first of these fields. -/
theorem declares_held (hr : t.record? c = some r) :
    let own := r.identity.name
    (∀ name held hint, (held, hint) ∈ r.hints → hint.isClassVariable = false → HeldAs own name held →
      let f := Field.ofDeclared r.identity (Field.declaredName own held) hint
      f ∈ declaredFields r ∧
        (Field.storedName own (Field.declaredName own held) = held ↔ ¬ IsMisread own held) ∧
        (¬ IsMisread own held → f.expose.read t = Access.getAttribute t held ∧
          ∀ v, f.expose.write t v = Access.setAttribute t held v) ∧
        (IsMisread own held → f.stored = f.declared ∧ f.stored ≠ held) ∧
        (IsPrivateName name → ¬ IsUnderscores own → ¬ IsMisread own held ∧ f.declared = name ∧
          f.isPrivate = true ∧ ∀ x, name = "__" ++ x → f.name = Field.publicName x)) ∧
    (∀ slot ∈ r.attributeSlots,
      let f := Field.ofDeclared r.identity slot .none
      f ∈ declaredFields r ∧ HeldAs own slot f.stored ∧ f.stored ∈ r.storedSlots ∧
        (IsPrivateName slot → f.isPrivate = true ∧ ∀ x, slot = "__" ++ x → f.name = Field.publicName x)) ∧
    ∀ key, Table.find? (t.ownFields c) key = (declaredFields r).find? (·.name == key) := by
  intro own
  refine ⟨fun name held hint hmem hfield hheld => ?_, fun slot hslot => ?_, find?_ownFields hr⟩
  · have hback := storedName_declaredName_iff hheld
    refine ⟨mem_declaredFields_of_hint hmem hfield, hback, fun h => ?_, fun h => ?_, fun hprivate hclass => ?_⟩
    · have hstored : Field.storedName r.identity.name (Field.declaredName own held) = held := hback.mpr h
      simp only [Field.read_expose, Field.write_expose, Field.stored_ofDeclared, hstored, implies_true,
        and_self]
    · rw [Field.stored_ofDeclared, Field.declared_ofDeclared]
      exact ⟨h.storedName_eq, fun heq => hback.mp heq h⟩
    · have hdeclared : Field.declaredName own held = name :=
        declaredName_of_private hprivate hclass hheld
      have hstored : Field.storedName own (Field.declaredName own held) = held := by
        rw [hdeclared]
        exact (heldAs_iff.mp hheld).symm
      rw [hdeclared, Field.isPrivate_ofDeclared_iff]
      refine ⟨hback.mp hstored, rfl, hprivate, ?_⟩
      rintro x rfl
      exact Field.name_ofDeclared_mark x
  · refine ⟨mem_declaredFields_of_slot hslot, ?_, ?_, fun hprivate => ?_⟩
    · rw [Field.stored_ofDeclared, heldAs_iff]
    · rw [Field.stored_ofDeclared]
      exact List.mem_map_of_mem hslot
    · rw [Field.isPrivate_ofDeclared_iff]
      refine ⟨hprivate, ?_⟩
      rintro x rfl
      exact Field.name_ofDeclared_mark x

/-- A class `_Locker` with a private name and with one that is spelled like those, and a class `_`. -/
def lockers : ClassTable where
  classes :=
    [plainClass 0 "_Locker" [] ["_Locker__key", "_Locker__tag__"], plainClass 1 "_" [] ["___x"]]

/-- The private field of the locker is found again. The name with two underscores at its end is not, nor
is the one in the class whose name is an underscore. -/
theorem declares_held_lockers :
    let field (id : ClassId) (own held : String) :=
      Field.ofDeclared ⟨id, own, "zoo", own⟩ (Field.declaredName own held) .none
    let key := field 0 "_Locker" "_Locker__key"
    HeldAs "_Locker" "__key" "_Locker__key" ∧ key.declared = "__key" ∧ key.isPrivate = true ∧
      key.name = "key" ∧ key.expose.read lockers = Access.getAttribute lockers "_Locker__key" ∧
      HeldAs "_Locker" "_Locker__tag__" "_Locker__tag__" ∧
      (field 0 "_Locker" "_Locker__tag__").stored ≠ "_Locker__tag__" ∧
      HeldAs "_" "___x" "___x" ∧ (field 1 "_" "___x").stored ≠ "___x" := by
  intro field key
  have hkey : HeldAs "_Locker" "__key" "_Locker__key" := by
    rw [heldAs_iff, ← String.toList_inj]
    decide +kernel
  have htag : HeldAs "_Locker" "_Locker__tag__" "_Locker__tag__" := heldAs_iff.mpr (by decide +kernel)
  have hx : HeldAs "_" "___x" "___x" := heldAs_iff.mpr (by decide +kernel)
  have hlocker := (declares_held (t := lockers) (c := 0) rfl).1
  obtain ⟨-, -, hread, -, hprivate⟩ := hlocker _ _ .none (by decide) rfl hkey
  obtain ⟨hfound, hdeclared, hkind, hname⟩ := hprivate (by decide +kernel) (by decide +kernel)
  obtain ⟨-, -, -, htagged, -⟩ := hlocker _ _ .none (by decide) rfl htag
  obtain ⟨-, -, -, hplain, -⟩ :=
    (declares_held (t := lockers) (c := 1) rfl).1 _ _ .none (by decide) rfl hx
  have hmisread : IsMisread "_Locker" "_Locker__tag__" :=
    ⟨"tag__", by decide, by decide +kernel, .inl (by decide +kernel)⟩
  have hmisread' : IsMisread "_" "___x" := ⟨"x", by decide, by decide +kernel, .inr (by decide +kernel)⟩
  exact ⟨hkey, hdeclared, hkind, hname "key" (by decide), (hread hfound).1, htag, (htagged hmisread).2, hx,
    (hplain hmisread').2⟩

end ClassTable
end Reflection
