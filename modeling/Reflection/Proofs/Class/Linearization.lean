import Mathlib.Tactic.SplitIfs
import Reflection.Class.Linearization

/-!
# The order merged from several orders

The class that is taken next heads some of the orders and stands in no other place, so it does not come
again. What is merged therefore holds every class once, all of them come from the orders, and it keeps
each of the orders.

## Main statements

* `exists_mem_of_mem_merge`: every class comes from one of the orders.
* `nodup_merge`: no class comes twice.
* `sublist_merge`: each order is kept.
-/
namespace Reflection.Linearization

variable {α : Type} [DecidableEq α] {c : α} {o merged : List α} {orders : List (List α)}

theorem not_mem_tail_of_next (h : next? orders = some c) (ho : o ∈ orders) : c ∉ o.tail := by
  have hall := List.find?_some h
  simp only [List.all_eq_true] at hall
  simpa using hall o ho

theorem exists_head_of_next (h : next? orders = some c) : ∃ o ∈ orders, o.head? = some c := by
  simpa using List.mem_of_find?_eq_some h

theorem mem_of_mem_dropHead {x : α} (h : x ∈ dropHead c o) : x ∈ o := by
  cases o with
  | nil => exact h
  | cons y rest =>
    simp only [dropHead] at h
    split_ifs at h
    · exact List.mem_cons_of_mem y h
    · exact h

/-- An order without the class that was taken from its head is kept behind that class. -/
theorem sublist_cons_of_dropHead (h : (dropHead c o).Sublist merged) :
    o.Sublist (c :: merged) := by
  cases o with
  | nil => exact List.nil_sublist _
  | cons y rest =>
    simp only [dropHead] at h
    split_ifs at h with hy
    · rw [hy]
      exact h.cons_cons c
    · exact h.cons c

/-- The class that is taken stands in none of the orders that are left. -/
theorem not_mem_dropHead_of_next (h : next? orders = some c) (ho : o ∈ orders) :
    c ∉ dropHead c o := by
  have htail := not_mem_tail_of_next h ho
  cases o with
  | nil => exact List.not_mem_nil
  | cons y rest =>
    simp only [dropHead]
    split_ifs with hy
    · exact htail
    · exact fun hmem => (List.mem_cons.mp hmem).elim (fun heq => hy heq.symm) htail

/-- A merged order is empty where the orders are, and otherwise starts with the class that is taken
next, followed by what is merged from the orders without it. -/
theorem merge_cases (h : merge? orders = some merged) :
    (merged = [] ∧ ∀ o ∈ orders, o = []) ∨
      ∃ c rest, next? orders = some c ∧ merge? (orders.map (dropHead c)) = some rest ∧
        merged = c :: rest := by
  unfold merge? at h
  split_ifs at h with hempty
  · cases h
    exact .inl ⟨rfl, by simpa using hempty⟩
  · split at h
    · cases h
    · rename_i c hnext
      obtain ⟨rest, hrest, rfl⟩ := Option.map_eq_some_iff.mp h
      exact .inr ⟨c, rest, hnext, hrest, rfl⟩

/-- Every class of a merged order comes from one of the orders. -/
theorem exists_mem_of_mem_merge {x : α} (h : merge? orders = some merged) (hx : x ∈ merged) :
    ∃ o ∈ orders, x ∈ o := by
  induction merged generalizing orders with
  | nil => cases hx
  | cons y rest ih =>
    rcases merge_cases h with ⟨hnil, -⟩ | ⟨c, rest, hnext, hrest, heq⟩
    · cases hnil
    · cases heq
      rcases List.mem_cons.mp hx with rfl | hx
      · obtain ⟨o, ho, hhead⟩ := exists_head_of_next hnext
        exact ⟨o, ho, List.mem_of_mem_head? hhead⟩
      · obtain ⟨left, hleft, hmem⟩ := ih hrest hx
        obtain ⟨o, ho, rfl⟩ := List.mem_map.mp hleft
        exact ⟨o, ho, mem_of_mem_dropHead hmem⟩

/-- No class comes twice in a merged order. -/
theorem nodup_merge (h : merge? orders = some merged) : merged.Nodup := by
  induction merged generalizing orders with
  | nil => exact List.nodup_nil
  | cons y rest ih =>
    rcases merge_cases h with ⟨hnil, -⟩ | ⟨c, rest, hnext, hrest, heq⟩
    · cases hnil
    · cases heq
      refine List.nodup_cons.mpr ⟨fun hmem => ?_, ih hrest⟩
      obtain ⟨left, hleft, hmem⟩ := exists_mem_of_mem_merge hrest hmem
      obtain ⟨o, ho, rfl⟩ := List.mem_map.mp hleft
      exact not_mem_dropHead_of_next hnext ho hmem

/-- A merged order keeps each of the orders. -/
theorem sublist_merge (h : merge? orders = some merged) (ho : o ∈ orders) :
    o.Sublist merged := by
  induction merged generalizing orders o with
  | nil =>
    rcases merge_cases h with ⟨-, hempty⟩ | ⟨c, rest, -, -, heq⟩
    · exact List.sublist_nil.mpr (hempty o ho)
    · cases heq
  | cons y rest ih =>
    rcases merge_cases h with ⟨hnil, -⟩ | ⟨c, rest, hnext, hrest, heq⟩
    · cases hnil
    · cases heq
      exact sublist_cons_of_dropHead (ih hrest (List.mem_map_of_mem ho))

end Reflection.Linearization
