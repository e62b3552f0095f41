import Mathlib.Logic.Relation
import Reflection.Proofs.Name

/-!
# Names of one symbol

Names count as the same where they differ only in the separators before them and in letter case. A folded
name is one of these for all of them: folding is the same for two names just where they count as the same.

## Main definitions

* `Name.Variant`, `Name.Alike`: names that count as the same.

## Main statements

* `Name.relative_lower`: separators before a name may be left out before or after it is put in lower case.
* `Name.alike_iff`: names that count as the same are those with the same folded name.
-/
namespace Reflection.Name

open Text

/-- The same name with a separator less before it, or the same name in another letter case. -/
inductive Variant : String → String → Prop
  | separator (name : String) : Variant ("\\" ++ name) name
  | lowerCase (name : String) : Variant (lower name) name

/-- The names are the same up to the separators before them and letter case. -/
def Alike : String → String → Prop := Relation.EqvGen Variant

/-! ## Lower case behind separators -/

theorem lowerFrom_separator_cons (rest : List Char) :
    lowerFrom [] (separator :: rest) = separator :: lowerFrom [] rest := by
  have hrest : lowerFrom [separator] rest = lowerFrom [] rest :=
    lowerFrom_concat [] rest (by decide +kernel) (by decide +kernel)
  rw [lowerFrom, hrest]
  rfl

theorem dropWhile_lowerFrom (cs : List Char) :
    (lowerFrom [] cs).dropWhile (· == separator) =
      lowerFrom [] (cs.dropWhile (· == separator)) := by
  induction cs with
  | nil => rfl
  | cons c rest ih =>
    by_cases hc : c = separator
    · subst hc
      rw [lowerFrom_separator_cons]
      exact ih
    · -- In lower case the name does not begin with a separator either.
      rw [List.dropWhile_cons_of_neg (by simpa using hc)]
      cases hlower : lowerFrom [] (c :: rest) with
      | nil => rfl
      | cons d ds =>
        have hd : d ≠ separator := by
          rintro rfl
          have hhead := head_lowerFrom (by decide) (by decide) (congrArg List.head? hlower)
          exact hc (Option.some.inj hhead)
        rw [List.dropWhile_cons_of_neg (by simpa using hd)]

/-- Separators before a name may be left out before or after it is put in lower case. -/
theorem relative_lower (name : String) : relative (lower name) = lower (relative name) := by
  rw [relative, trimStart, lower, String.toList_ofList, dropWhile_lowerFrom, lower, relative,
    trimStart, String.toList_ofList]

/-! ## Folding -/

theorem fold_separator_append (name : String) : fold ("\\" ++ name) = fold name :=
  congrArg lower (relative_separator_append name)

theorem fold_lower (name : String) : fold (lower name) = fold name := by
  rw [fold, relative_lower, lower_lower, fold]

theorem alike_dropWhile (cs : List Char) :
    Alike (String.ofList (cs.dropWhile (· == separator))) (String.ofList cs) := by
  induction cs with
  | nil => exact .refl _
  | cons c rest ih =>
    by_cases hc : c = separator
    · subst hc
      have hname : String.ofList (separator :: rest) = "\\" ++ String.ofList rest := by
        simp [separator]
      rw [hname]
      exact .trans _ _ _ ih (.symm _ _ (.rel _ _ (.separator _)))
    · rw [List.dropWhile_cons_of_neg (by simpa using hc)]
      exact .refl _

theorem alike_relative (name : String) : Alike (relative name) name := by
  have hdrop := alike_dropWhile name.toList
  rwa [String.ofList_toList] at hdrop

theorem alike_fold (name : String) : Alike (fold name) name :=
  .trans _ _ _ (.rel _ _ (.lowerCase _)) (alike_relative name)

theorem Variant.fold_eq {name name' : String} (h : Variant name name') : fold name = fold name' := by
  cases h with
  | separator => exact fold_separator_append name'
  | lowerCase => exact fold_lower name'

/-- Names that count as the same are those with the same folded name. -/
theorem alike_iff {name name' : String} : Alike name name' ↔ fold name = fold name' := by
  constructor
  · intro h
    induction h with
    | rel _ _ hstep => exact hstep.fold_eq
    | refl => rfl
    | symm _ _ _ ih => exact ih.symm
    | trans _ _ _ _ _ ih ih' => exact ih.trans ih'
  · intro h
    have hname := alike_fold name
    rw [h] at hname
    exact .trans _ _ _ (.symm _ _ hname) (alike_fold name')

example : Alike "\\\\Zoo\\LION" "\\zoo\\Lion" := alike_iff.mpr (by decide +kernel)

end Reflection.Name
