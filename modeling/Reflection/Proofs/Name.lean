import Mathlib.Data.List.TakeWhile
import Reflection.Proofs.Text.Case
import Reflection.Proofs.Token

/-!
# Separators in names

A name without a separator at its start stays as it is where such separators are left out. Labels, local
parts and folded names have none, so a folded name stays as it is when it is folded again. The local part
of a name is what stands behind its last separator.

## Main statements

* `Name.isAbsolute_localPart`, `Name.isAbsolute_of_isLabel`, `Name.isAbsolute_fold`: names without a
  separator at their start.
* `Name.localPart_join`: the local part of a name in a namespace.
* `Name.fold_fold`: a folded name stays as it is.
-/
namespace Reflection.Name

open Text

/-! ## Relative names -/

theorem relative_of_not_isAbsolute {name : String} (h : isAbsolute name = false) :
    relative name = name := by
  unfold isAbsolute at h
  unfold relative Text.trimStart
  cases hchars : name.toList with
  | nil =>
    rw [← String.ofList_toList (s := name), hchars]
    rfl
  | cons c rest =>
    have hc : (c == separator) = false := by simpa [hchars] using h
    rw [List.dropWhile_cons_of_neg (by simp [hc]), ← hchars, String.ofList_toList]

theorem isAbsolute_of_not_isQualified {name : String} (h : isQualified name = false) :
    isAbsolute name = false := by
  unfold isQualified at h
  unfold isAbsolute
  cases hchars : name.toList with
  | nil => rfl
  | cons c rest =>
    have hc : c ≠ separator := by
      rintro rfl
      simp [hchars] at h
    simpa using hc

theorem relative_separator_append (name : String) : relative ("\\" ++ name) = relative name := by
  simp [relative, Text.trimStart, separator, String.toList_append]

theorem isAbsolute_separator_append (name : String) : isAbsolute ("\\" ++ name) = true := by
  simp [isAbsolute, separator, String.toList_append]

theorem isAbsolute_relative (name : String) : isAbsolute (relative name) = false := by
  have hdrop := List.head?_dropWhile_not (· == separator) name.toList
  rw [isAbsolute, relative, trimStart, String.toList_ofList]
  cases hhead : (name.toList.dropWhile (· == separator)).head? with
  | none => rfl
  | some c =>
    rw [hhead] at hdrop
    simpa using hdrop

/-! ## Local parts and labels -/

theorem isAbsolute_localPart (name : String) : isAbsolute (localPart name) = false := by
  refine isAbsolute_of_not_isQualified ?_
  rw [isQualified, localPart, String.toList_ofList, List.contains_eq_mem, decide_eq_false_iff_not,
    List.mem_reverse]
  intro hmem
  simpa using List.mem_takeWhile_imp hmem

theorem isQualified_of_isLabel {s : String} (h : isLabel s = true) : isQualified s = false := by
  rw [isQualified, List.contains_eq_mem, decide_eq_false_iff_not]
  intro hmem
  exact ne_separator_of_isLabel h hmem rfl

theorem isAbsolute_of_isLabel {s : String} (h : isLabel s = true) : isAbsolute s = false :=
  isAbsolute_of_not_isQualified (isQualified_of_isLabel h)

/-- The last segment of a name is what stands behind its last separator. -/
theorem localPart_of_toList {name last : String} {front : List Char} (hlast : isLabel last = true)
    (hname : name.toList = front ++ last.toList)
    (hfront : front = [] ∨ ∃ before, front = before ++ [separator]) : localPart name = last := by
  have hne : last.toList.reverse ≠ [] := by
    simpa using toList_ne_nil_of_isLabel hlast
  have hlabel : ∀ c ∈ last.toList.reverse, (c != separator) = true := fun c hc =>
    bne_iff_ne.mpr (ne_separator_of_isLabel hlast (List.mem_reverse.mp hc))
  have hkeep : dropTrailing (· == separator) name.toList = name.toList := by
    obtain ⟨c, rest, hrest⟩ := List.exists_cons_of_ne_nil hne
    have hc : (c == separator) = false := by
      simpa using hlabel c (by rw [hrest]; exact List.mem_cons_self ..)
    rw [dropTrailing, hname, List.reverse_append, hrest, List.cons_append,
      List.dropWhile_cons_of_neg (by simp [hc]), ← List.cons_append, ← hrest, ← List.reverse_append,
      List.reverse_reverse]
  have hstop : front.reverse.takeWhile (· != separator) = [] := by
    rcases hfront with rfl | ⟨before, rfl⟩ <;> simp
  rw [localPart, hkeep, hname, List.reverse_append, List.takeWhile_append_of_pos hlabel, hstop,
    List.append_nil, List.reverse_reverse, String.ofList_toList]

theorem localPart_join (space : String) {name : String} (h : isLabel name = true) :
    localPart (join space name) = name := by
  unfold join
  split_ifs
  · exact localPart_of_toList h (List.nil_append _).symm (.inl rfl)
  · have hname : (space ++ "\\" ++ name).toList =
        (space.toList ++ [separator]) ++ name.toList := by
      simp [separator, String.toList_append]
    exact localPart_of_toList h hname (.inr ⟨_, rfl⟩)

/-! ## Folded names -/

theorem isAbsolute_fold (name : String) : isAbsolute (fold name) = false := by
  have hrelative := isAbsolute_relative name
  rw [isAbsolute, beq_eq_false_iff_ne] at hrelative ⊢
  rw [fold, lower, String.toList_ofList]
  intro hhead
  exact hrelative (head_lowerFrom (by decide) (by decide) hhead)

/-- A folded name stays as it is. -/
theorem fold_fold (name : String) : fold (fold name) = fold name := by
  calc
    fold (fold name) = lower (fold name) :=
      congrArg lower (relative_of_not_isAbsolute (isAbsolute_fold name))
    _ = fold name := lower_lower (relative name)

end Reflection.Name
