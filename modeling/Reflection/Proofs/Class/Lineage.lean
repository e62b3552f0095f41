import Reflection.Field.Listing
import Reflection.Proofs.Class.Linearization
import Reflection.Proofs.Report

/-!
# Lineages of defined classes

A table holds the classes that were defined one after the other, each with bases that were there
before it. So the lineage of a class is the class itself followed by older ones, each of them once, and
it keeps the lineages of all of them.

The parents of a class, followed one after the other, stand in its lineage in the same order. They are
all of it just where each class of the lineage has the rest of it for its own.

## Main definitions

* `ClassTable.Defined`: the table was made by definitions.
* `ClassTable.Ordered`: what is known of a lineage.
* `ClassTable.Chained`: each class of a lineage has the rest of it for its own lineage.

## Main statements

* `ClassTable.Defined.ordered`: the lineages of a defined table are ordered.
* `ClassTable.Defined.sublist_lineage`: parents stand in the lineage.
* `ClassTable.Defined.ancestors_eq_tail_iff`: when parents are the whole lineage.
-/
namespace Reflection.ClassTable

open Linearization

variable {t t' : ClassTable} {d : ClassDescription} {c a b p : ClassId} {tail : List ClassId}
  {r : ClassRecord}

/-- The table was made by defining classes, each with bases that were there before. -/
inductive Defined : ClassTable → Prop
  | empty : Defined {}
  | define {t t' : ClassTable} {d : ClassDescription} {c : ClassId} (h : Defined t)
      (hbases : ∀ b ∈ d.bases, b < t.classes.length) (hdefine : t.define d = .ok (t', c)) :
      Defined t'

/-- The lineage of a class is the class followed by older ones, each of them once. It keeps the
lineage of each of these. -/
structure Ordered (t : ClassTable) (c : ClassId) (tail : List ClassId) : Prop where
  lineage : t.lineage c = c :: tail
  lt : ∀ b ∈ tail, b < c
  nodup : tail.Nodup
  keeps : ∀ b ∈ tail, (t.lineage b).Sublist tail

/-- Each class of the lineage of a class has the rest of it for its own lineage. -/
def Chained (t : ClassTable) (c : ClassId) : Prop :=
  ∀ a rest, a :: rest <:+ t.lineage c → t.lineage a = a :: rest

/-! ## Definitions -/

/-- The lineage of a new class is merged from those of its bases and their order. -/
theorem exists_merge_of_lineageOf {bases lineage : List ClassId}
    (h : t.lineageOf? c bases = some lineage) :
    ∃ tail, merge? (bases.map t.lineage ++ [bases]) = some tail ∧ lineage = c :: tail := by
  unfold lineageOf? at h
  split_ifs at h
  obtain ⟨tail, htail, rfl⟩ := Option.map_eq_some_iff.mp h
  exact ⟨tail, htail, rfl⟩

/-- The place of a new class, and its lineage. -/
theorem recordOf_spec (h : t.recordOf d = .ok r) :
    r.identity.id = t.classes.length ∧ t.lineageOf? t.classes.length d.bases = some r.lineage := by
  simp only [recordOf] at h
  obtain ⟨base, -, h⟩ := exists_ok_of_bind h
  split at h
  · cases h
  · split at h
    · cases h
    · split at h
      · cases h
      · rename_i lineage hlineage
        cases h
        exact ⟨rfl, hlineage⟩

@[simp] theorem classes_publish (t : ClassTable) (c : ClassIdentity) :
    (t.publish c).classes = t.classes := by
  unfold publish
  dsimp only
  split
  · rfl
  · split_ifs <;> rfl
  · rfl

/-- A definition adds one class to the table. -/
theorem exists_record_of_define (h : t.define d = .ok (t', c)) :
    ∃ r, t'.classes = t.classes ++ [r] ∧ r.identity.id = t.classes.length ∧
      t.lineageOf? t.classes.length d.bases = some r.lineage := by
  obtain ⟨r, hr, h⟩ := exists_ok_of_bind h
  cases h
  obtain ⟨hid, hlineage⟩ := recordOf_spec hr
  exact ⟨r, by simp, hid, hlineage⟩

theorem record?_of_append (h : t'.classes = t.classes ++ [r]) (hc : c < t.classes.length) :
    t'.record? c = t.record? c := by
  simp [record?, h, List.getElem?_append_left hc]

theorem record?_new (h : t'.classes = t.classes ++ [r]) : t'.record? t.classes.length = some r := by
  simp [record?, h]

theorem lineage_of_append (h : t'.classes = t.classes ++ [r]) (hc : c < t.classes.length) :
    t'.lineage c = t.lineage c := by
  simp only [lineage, record?_of_append h hc]

theorem lineage_new (h : t'.classes = t.classes ++ [r]) :
    t'.lineage t.classes.length = r.lineage := by
  simp [lineage, record?_new h]

/-- The class at a place of a defined table knows its place. -/
theorem Defined.id_eq (h : t.Defined) (hr : t.record? c = some r) : r.identity.id = c := by
  induction h generalizing c r with
  | empty => simp [record?] at hr
  | @define t t' d new h hbases hdefine ih =>
    obtain ⟨own, hclasses, hid, -⟩ := exists_record_of_define hdefine
    have hlt : c < t'.classes.length := (List.getElem?_eq_some_iff.mp hr).1
    rw [hclasses, List.length_append, List.length_singleton] at hlt
    rcases Nat.lt_succ_iff_lt_or_eq.mp hlt with hold | rfl
    · exact ih (record?_of_append hclasses hold ▸ hr)
    · rw [record?_new hclasses] at hr
      cases hr
      exact hid

/-! ## Order -/

theorem Ordered.of_append (hclasses : t'.classes = t.classes ++ [r]) (hc : c < t.classes.length)
    (h : t.Ordered c tail) : t'.Ordered c tail := by
  refine ⟨(lineage_of_append hclasses hc).trans h.lineage, h.lt, h.nodup, fun b hb => ?_⟩
  rw [lineage_of_append hclasses (Nat.lt_trans (h.lt b hb) hc)]
  exact h.keeps b hb

theorem Ordered.nodup_lineage (h : t.Ordered c tail) : (t.lineage c).Nodup := by
  rw [h.lineage]
  exact List.nodup_cons.mpr ⟨fun hmem => Nat.lt_irrefl c (h.lt c hmem), h.nodup⟩

/-- A lineage keeps those of all its classes. -/
theorem Ordered.sublist_of_mem (h : t.Ordered c tail) (hb : b ∈ t.lineage c) :
    (t.lineage b).Sublist (t.lineage c) := by
  rw [h.lineage] at hb
  rcases List.mem_cons.mp hb with rfl | hb
  · exact List.Sublist.refl _
  · rw [h.lineage]
    exact (h.keeps b hb).cons c

/-- The lineage that is merged for a new class is ordered. -/
theorem Ordered.of_merge {bases : List ClassId} (hclasses : t'.classes = t.classes ++ [r])
    (hbases : ∀ b ∈ bases, ∃ tail, t.Ordered b tail ∧ b < t.classes.length)
    (hmerge : merge? (bases.map t.lineage ++ [bases]) = some tail)
    (hlineage : r.lineage = t.classes.length :: tail) : t'.Ordered t.classes.length tail := by
  -- Every class of the order belongs to the lineage of a base.
  have hfrom (b : ClassId) (hb : b ∈ tail) : ∃ base ∈ bases, b ∈ t.lineage base := by
    obtain ⟨o, ho, hmem⟩ := exists_mem_of_mem_merge hmerge hb
    rcases List.mem_append.mp ho with ho | ho
    · obtain ⟨base, hbase, rfl⟩ := List.mem_map.mp ho
      exact ⟨base, hbase, hmem⟩
    · rw [List.mem_singleton.mp ho] at hmem
      obtain ⟨_, hordered, -⟩ := hbases b hmem
      exact ⟨b, hmem, hordered.lineage ▸ List.mem_cons_self⟩
  have hlt (b : ClassId) (hb : b ∈ tail) : b < t.classes.length := by
    obtain ⟨base, hbase, hmem⟩ := hfrom b hb
    obtain ⟨_, hordered, hbase⟩ := hbases base hbase
    rw [hordered.lineage] at hmem
    rcases List.mem_cons.mp hmem with rfl | hmem
    · exact hbase
    · exact Nat.lt_trans (hordered.lt b hmem) hbase
  refine ⟨(lineage_new hclasses).trans hlineage, hlt, nodup_merge hmerge, fun b hb => ?_⟩
  obtain ⟨base, hbase, hmem⟩ := hfrom b hb
  obtain ⟨_, hordered, -⟩ := hbases base hbase
  rw [lineage_of_append hclasses (hlt b hb)]
  exact (hordered.sublist_of_mem hmem).trans
    (sublist_merge hmerge (List.mem_append_left _ (List.mem_map_of_mem hbase)))

/-- The lineages of a defined table are ordered. -/
theorem Defined.ordered (h : t.Defined) (hc : c < t.classes.length) :
    ∃ tail, t.Ordered c tail := by
  induction h generalizing c with
  | empty => cases hc
  | @define t t' d new h hbases hdefine ih =>
    obtain ⟨own, hclasses, -, hlineage⟩ := exists_record_of_define hdefine
    obtain ⟨tail, hmerge, hown⟩ := exists_merge_of_lineageOf hlineage
    rw [hclasses, List.length_append, List.length_singleton] at hc
    rcases Nat.lt_succ_iff_lt_or_eq.mp hc with hold | rfl
    · obtain ⟨tail, hordered⟩ := ih hold
      exact ⟨tail, hordered.of_append hclasses hold⟩
    · refine ⟨tail, .of_merge hclasses (fun b hb => ?_) hmerge hown⟩
      obtain ⟨tail, hordered⟩ := ih (hbases b hb)
      exact ⟨tail, hordered, hbases b hb⟩

/-! ## Parents -/

theorem Ordered.parent?_eq (h : t.Ordered c tail) : t.parent? c = tail.head? := by
  unfold parent?
  rw [h.lineage]
  cases tail with
  | nil => rfl
  | cons p rest => simp [Option.filter, h.lt p (List.mem_cons_self ..)]

theorem ancestors_of_parent (h : t.parent? c = some p) : t.ancestors c = p :: t.ancestors p := by
  rw [ancestors]
  split <;> simp_all

theorem ancestors_of_no_parent (h : t.parent? c = none) : t.ancestors c = [] := by
  rw [ancestors]
  split <;> simp_all

/-- The parents of an ancestor are the last ones of the parents of the class. -/
theorem suffix_ancestors (h : a ∈ c :: t.ancestors c) :
    a :: t.ancestors a <:+ c :: t.ancestors c := by
  induction c using Nat.strongRecOn with
  | ind c ih =>
    rcases List.mem_cons.mp h with rfl | h
    · exact List.suffix_refl _
    · cases hp : t.parent? c with
      | none =>
        rw [ancestors_of_no_parent hp] at h
        cases h
      | some p =>
        rw [ancestors_of_parent hp] at h ⊢
        exact (ih p (parent_lt hp) h).trans (List.suffix_cons c _)

namespace Defined

/-- The parents of a class stand in its lineage, in their order. -/
theorem sublist_lineage (h : t.Defined) (hc : c < t.classes.length) :
    (c :: t.ancestors c).Sublist (t.lineage c) := by
  induction c using Nat.strongRecOn with
  | ind c ih =>
    obtain ⟨tail, hordered⟩ := h.ordered hc
    rw [hordered.lineage]
    refine List.Sublist.cons_cons c ?_
    cases tail with
    | nil => exact List.sublist_nil.mpr (ancestors_of_no_parent hordered.parent?_eq)
    | cons p rest =>
      rw [ancestors_of_parent hordered.parent?_eq]
      have hp := hordered.lt p (List.mem_cons_self ..)
      exact (ih p hp (Nat.lt_trans hp hc)).trans (hordered.keeps p (List.mem_cons_self ..))

/-- The parents of a class are its lineage just where each class of the lineage has the rest of it for
its own. -/
theorem ancestors_eq_tail_iff (h : t.Defined) (hc : c < t.classes.length) :
    t.ancestors c = (t.lineage c).tail ↔ t.Chained c := by
  induction c using Nat.strongRecOn with
  | ind c ih =>
    obtain ⟨tail, hordered⟩ := h.ordered hc
    unfold Chained
    rw [hordered.lineage, List.tail_cons]
    cases tail with
    | nil =>
      refine iff_of_true (ancestors_of_no_parent hordered.parent?_eq) fun a rest hsuffix => ?_
      rcases List.suffix_cons_iff.mp hsuffix with heq | hnil
      · cases heq
        exact hordered.lineage
      · cases List.suffix_nil.mp hnil
    | cons p rest =>
      have hp := hordered.lt p (List.mem_cons_self ..)
      have hlt := Nat.lt_trans hp hc
      rw [ancestors_of_parent hordered.parent?_eq]
      constructor
      · intro hall
        -- The lineage of the parent lies between its own parents and the rest of this lineage.
        have hparents : (p :: rest).Sublist (t.lineage p) := hall ▸ h.sublist_lineage hlt
        have hlineage : t.lineage p = p :: rest :=
          (hordered.keeps p (List.mem_cons_self ..)).eq_of_length_le hparents.length_le
        have hchained : t.Chained p := (ih p hp hlt).mp
          (hlineage ▸ (List.cons.inj hall).2)
        intro a left hsuffix
        rcases List.suffix_cons_iff.mp hsuffix with heq | hsuffix
        · cases heq
          exact hordered.lineage
        · exact hchained a left (hlineage ▸ hsuffix)
      · intro hchained
        have hlineage := hchained p rest (List.suffix_cons c _)
        have hparent : t.Chained p := fun a left hsuffix =>
          hchained a left ((hlineage ▸ hsuffix).trans (List.suffix_cons c _))
        rw [(ih p hp hlt).mpr hparent, hlineage, List.tail_cons]

end Defined
end Reflection.ClassTable
