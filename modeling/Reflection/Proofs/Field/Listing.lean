import Reflection.Field.Policy
import Reflection.Proofs.Table

/-!
# Handles on fields

Every handle that a class gives on one of its fields is a new one: it gives access to a public field and
to no other, whatever became of the handles that were given before.

## Main definitions

* `Field.IsNew`: the handle gives access just where anybody may use the field.

## Main statements

* `ClassTable.findField?_spec`, `ClassTable.locate?_spec`: a field is found under its name, with a new
  handle.
* `ClassTable.isNew_of_mem_fields`: the handles on all fields of a class are new.
-/
namespace Reflection

/-- The handle gives access just where anybody may use the field. -/
def Field.IsNew (f : Field) : Prop := f.accessible = f.isPublic

theorem Field.isNew_ofDeclared (owner : ClassIdentity) (declared : String) (hint : TypeHint) :
    (ofDeclared owner declared hint).IsNew := rfl

namespace ClassTable

/-- The fields of a table stand under their names, with new handles. -/
def Listed (fields : Table String Field) : Prop := ∀ e ∈ fields, e.2.name = e.1 ∧ e.2.IsNew

theorem Listed.addField {fields : Table String Field} {f : Field} (h : Listed fields)
    (hf : f.IsNew) : Listed (addField fields f) := by
  unfold ClassTable.addField
  split
  · exact h
  · intro e he
    rcases Table.mem_insert he with rfl | he
    · exact ⟨rfl, hf⟩
    · exact h e he

theorem Listed.foldl_addField {fields : Table String Field} {fs : List Field} (h : Listed fields)
    (hfs : ∀ f ∈ fs, f.IsNew) : Listed (fs.foldl ClassTable.addField fields) := by
  induction fs generalizing fields with
  | nil => exact h
  | cons f rest ih =>
    obtain ⟨hf, hrest⟩ := List.forall_mem_cons.mp hfs
    exact ih (h.addField hf) hrest

theorem Listed.find? {fields : Table String Field} {name : String} {f : Field} (h : Listed fields)
    (hfind : Table.find? fields name = some f) : f.name = name ∧ f.IsNew :=
  h _ (Table.mem_of_find? hfind)

theorem Listed.isNew_of_mem_values {fields : Table String Field} {f : Field} (h : Listed fields)
    (hf : f ∈ Table.values fields) : f.IsNew := by
  obtain ⟨e, he, rfl⟩ := List.mem_map.mp hf
  exact (h e he).2

variable {t : ClassTable} {c : ClassId} {name : String} {f : Field}

theorem listed_ownFields (t : ClassTable) (c : ClassId) : Listed (t.ownFields c) := by
  have hnil : Listed [] := fun e he => nomatch he
  unfold ownFields
  split
  · exact hnil
  · refine hnil.foldl_addField fun f hf => ?_
    obtain ⟨⟨declared, hint⟩, -, rfl⟩ := List.mem_map.mp hf
    exact Field.isNew_ofDeclared ..

/-- A field is found under its name, with a new handle. -/
theorem findField?_spec (h : t.findField? c name = some f) :
    f.name = Field.publicName name ∧ f.IsNew := by
  unfold findField? at h
  dsimp only at h
  split at h
  · rename_i hown
    cases h
    exact (listed_ownFields t c).find? hown
  · obtain ⟨ancestor, -, hancestor⟩ := List.exists_of_findSome?_eq_some h
    exact (listed_ownFields t ancestor).find? (Option.filter_eq_some_iff.mp hancestor).1

/-- A field is located under its name, with a new handle. -/
theorem locate?_spec {inherited : Bool} (h : t.locate? c name inherited = some f) :
    f.name = Field.publicName name ∧ f.IsNew := by
  obtain ⟨level, -, hlevel⟩ := List.exists_of_findSome?_eq_some h
  exact findField?_spec hlevel

theorem isNew_of_mem_fields (h : f ∈ t.fields c) : f.IsNew := by
  refine ((listed_ownFields t c).foldl_addField fun g hg => ?_).isNew_of_mem_values h
  obtain ⟨ancestor, -, hg⟩ := List.mem_flatMap.mp hg
  exact (listed_ownFields t ancestor).isNew_of_mem_values (List.mem_filter.mp hg).1

end ClassTable
end Reflection
