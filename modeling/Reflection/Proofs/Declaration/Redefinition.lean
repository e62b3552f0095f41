import Reflection.Proofs.Declaration.Listings

/-!
# Indexes that differ in what names stand for

What a name stands for may be changed, by its kind and the name, without a change of the index in any
other respect: of the names, their order, and their declarations. Filing the same declarations with
the changed definitions gives the changed index.

## Main definitions

* `Table.mapValues`, `DeclarationIndex.redefine`: other values under the same keys.

## Main statements

* `DeclarationIndex.redefine_add`: adding a declaration and then changing definitions.
* `fileAll_redefine`: two ways to file the same declarations.
-/
namespace Reflection

namespace Table

variable {κ α β : Type} [DecidableEq κ]

/-- The table with other values, each depending on its key and the value before. -/
def mapValues (f : κ → α → β) (t : Table κ α) : Table κ β := t.map fun e => (e.1, f e.1 e.2)

theorem find?_mapValues (f : κ → α → β) (t : Table κ α) (key : κ) :
    find? (mapValues f t) key = (find? t key).map (f key) := by
  induction t with
  | nil => rfl
  | cons e rest ih =>
    rw [mapValues, List.map_cons, find?, find?]
    by_cases hkey : e.1 = key
    · rw [if_pos hkey, if_pos hkey, Option.map_some, hkey]
    · rw [if_neg hkey, if_neg hkey]
      exact ih

theorem mapValues_insert (f : κ → α → β) (t : Table κ α) (key : κ) (value : α) :
    mapValues f (insert t key value) = insert (mapValues f t) key (f key value) := by
  induction t with
  | nil => rfl
  | cons e rest ih =>
    rw [mapValues, mapValues, List.map_cons, insert, insert]
    by_cases hkey : e.1 = key
    · rw [if_pos hkey, if_pos hkey, List.map_cons, hkey]
    · rw [if_neg hkey, if_neg hkey, List.map_cons]
      exact congrArg _ ih

end Table

namespace DeclarationIndex

variable (g : DeclarationKind → String → Definition → Definition) (index : DeclarationIndex)

/-- The index with what names stand for changed, by kind and name. -/
def redefine : DeclarationIndex :=
  ⟨Table.mapValues (fun key entry => (g key.1 key.2 entry.1, entry.2)) index.entries⟩

variable (kind : DeclarationKind) (name : String)

theorem find?_redefine : (index.redefine g).find? kind name =
    (index.find? kind name).map fun entry => (g kind name entry.1, entry.2) := by
  rw [find?, redefine, Table.find?_mapValues]
  rfl

@[simp] theorem value?_redefine :
    (index.redefine g).value? kind name = (index.value? kind name).map (g kind name) := by
  rw [value?, value?, find?_redefine, Option.map_map, Option.map_map]
  rfl

@[simp] theorem declaration?_redefine :
    (index.redefine g).declaration? kind name = index.declaration? kind name := by
  rw [declaration?, declaration?, find?_redefine, Option.map_map]
  rfl

@[simp] theorem contains_redefine :
    (index.redefine g).contains kind name = index.contains kind name := by
  rw [contains_eq_isSome, contains_eq_isSome, declaration?_redefine]

theorem ofKind_redefine : (index.redefine g).ofKind kind =
    (index.ofKind kind).map fun e => (e.1, g kind e.1 e.2.1, e.2.2) := by
  simp only [ofKind, redefine, Table.mapValues, List.filterMap_map, List.map_filterMap]
  refine congrArg (fun f => List.filterMap f index.entries) (funext fun e => ?_)
  by_cases hkind : e.1.1 = kind
  · simp [hkind]
  · simp [hkind]

@[simp] theorem names_redefine : (index.redefine g).names kind = index.names kind := by
  rw [names, names, ofKind_redefine, List.map_map]
  rfl

theorem elements_redefine : (index.redefine g).elements kind =
    (index.elements kind).map fun e => (e.1, g kind e.1 e.2) := by
  rw [elements, elements, ofKind_redefine, List.map_map, List.map_map]
  rfl

variable {g index kind name}

/-- Where names of a kind stand for the same as before, nothing about this kind changes. -/
theorem value?_redefine_of_eq (h : ∀ name v, g kind name v = v) :
    (index.redefine g).value? kind name = index.value? kind name := by
  rw [value?_redefine]
  cases index.value? kind name with
  | none => rfl
  | some v => exact congrArg some (h name v)

theorem constant?_redefine (h : ∀ name v, g .constKind name v = v) :
    (index.redefine g).constant? = index.constant? := by
  funext name
  rw [constant?, constant?, value?_redefine_of_eq h]

theorem elements_redefine_of_eq (h : ∀ name v, g kind name v = v) :
    (index.redefine g).elements kind = index.elements kind := by
  simp [elements_redefine, h]

theorem imports_redefine (h : ∀ name v, g .useKind name v = v) :
    (index.redefine g).imports = index.imports := by
  rw [imports, imports, elements_redefine_of_eq h]

variable (g index kind name)

@[simp] theorem lookup?_redefine :
    (index.redefine g).lookup? kind name = index.lookup? kind name := by
  have hcontains : (index.redefine g).contains kind = index.contains kind :=
    funext fun name => contains_redefine g index kind name
  simp only [lookup?, hcontains, names_redefine]

/-- Changing definitions after a declaration is added is adding it with its changed definition. -/
theorem redefine_add (d : Declaration) (definition : Definition) :
    (index.add d definition).1.redefine g =
      ((index.redefine g).add d (g d.kind d.name definition)).1 := by
  unfold add
  simp only [contains_redefine]
  split
  · rfl
  · exact congrArg mk (Table.mapValues_insert _ index.entries (d.kind, d.name) (definition, d))

end DeclarationIndex

/-- Where every declaration gets its changed definition, filing all of them gives the changed index. -/
theorem fileAll_redefine {options options' : ScanOptions} {listings : List Listing}
    {g : DeclarationKind → String → Definition → Definition} {index last : DeclarationIndex}
    (hdefine : ∀ l ∈ listings, ∀ index v, (l.define options index).outcome = .ok v →
      (l.define options' (index.redefine g)).outcome =
        .ok (g l.declaration.kind l.declaration.name v))
    (h : (fileAll options index listings).outcome = .ok last) :
    (fileAll options' (index.redefine g) listings).outcome = .ok (last.redefine g) := by
  induction listings generalizing index with
  | nil =>
    cases h
    rfl
  | cons l rest ih =>
    obtain ⟨hl, hrest⟩ := List.forall_mem_cons.mp hdefine
    obtain ⟨definition, hdefinition, h⟩ := (fileAll_cons_eq_ok_iff options).mp h
    refine (fileAll_cons_eq_ok_iff options').mpr ⟨_, hl index definition hdefinition, ?_⟩
    rw [← DeclarationIndex.redefine_add]
    exact ih hrest h

end Reflection
