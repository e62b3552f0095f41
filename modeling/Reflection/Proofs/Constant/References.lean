import Reflection.Proofs.Constant.Soundness
import Reflection.Proofs.Report

/-!
# What the value of an expression depends on

An expression is evaluated from the values of the constants that it refers to and of no others. Since
every part of an expression is evaluated, it has a value only where each of these has one.

## Main definitions

* `Expression.references`: the names of the constants that an expression refers to.

## Main statements

* `Expression.value_congr`: the value depends on the constants that are referred to.
* `Expression.isSome_of_mem_references`: an expression with a value refers to known constants only.
-/
namespace Reflection

mutual

/-- Names of the constants that an expression refers to. -/
def Expression.references : Expression → List String
  | .word _ | .number _ | .string _ _ => []
  | .reference name _ => [name]
  | .group inner => inner.references
  | .unary _ _ operand => operand.references
  | .binary _ left right => left.references ++ right.references
  | .array elements => ArrayElement.referencesOf elements

/-- Names of the constants that the elements of an array refer to. -/
def ArrayElement.referencesOf : List ArrayElement → List String
  | [] => []
  | .positional value :: rest => value.references ++ ArrayElement.referencesOf rest
  | .keyed key value :: rest =>
    key.references ++ (value.references ++ ArrayElement.referencesOf rest)

end

variable {lookup lookup' : ConstantLookup}

mutual

/-- An expression has the same value under two lookups that agree on its references. -/
theorem Expression.value_congr (e : Expression)
    (h : ∀ name ∈ e.references, lookup name = lookup' name) :
    e.value lookup = e.value lookup' := by
  cases e with
  | word v => rfl
  | number text => rfl
  | string text line => rfl
  | reference name line =>
    have hname : lookup name = lookup' name := h name (List.mem_singleton_self name)
    simp only [Expression.value, hname]
  | group inner => exact inner.value_congr h
  | unary op line operand =>
    simp only [Expression.value]
    rw [operand.value_congr h]
  | binary op left right =>
    simp only [Expression.value]
    rw [left.value_congr fun name hname => h name (List.mem_append_left _ hname),
      right.value_congr fun name hname => h name (List.mem_append_right _ hname)]
  | array elements =>
    simp only [Expression.value]
    rw [ArrayElement.values_congr elements h]

/-- The elements of an array have the same values under two lookups that agree on their
references. -/
theorem ArrayElement.values_congr (elements : List ArrayElement)
    (h : ∀ name ∈ ArrayElement.referencesOf elements, lookup name = lookup' name) :
    ArrayElement.values lookup elements = ArrayElement.values lookup' elements := by
  match elements with
  | [] => rfl
  | .positional value :: rest =>
    simp only [ArrayElement.values]
    rw [value.value_congr fun name hname => h name (List.mem_append_left _ hname),
      ArrayElement.values_congr rest fun name hname => h name (List.mem_append_right _ hname)]
  | .keyed key value :: rest =>
    simp only [ArrayElement.values]
    rw [key.value_congr fun name hname => h name (List.mem_append_left _ hname),
      value.value_congr fun name hname =>
        h name (List.mem_append_right _ (List.mem_append_left _ hname)),
      ArrayElement.values_congr rest fun name hname =>
        h name (List.mem_append_right _ (List.mem_append_right _ hname))]

end

mutual

/-- An expression that has a value refers to constants that are known. -/
theorem Expression.isSome_of_mem_references {e : Expression} {v : Value} {name : String}
    (h : e.value lookup = .ok v) (hname : name ∈ e.references) : (lookup name).isSome := by
  cases e with
  | word v => cases hname
  | number text => cases hname
  | string text line => cases hname
  | reference found line =>
    rw [List.mem_singleton.mp hname]
    simp only [Expression.value] at h
    split at h
    · rename_i hfound
      rw [hfound]
      rfl
    · cases h
  | group inner =>
    simp only [Expression.value] at h
    exact Expression.isSome_of_mem_references h hname
  | unary op line operand =>
    simp only [Expression.value] at h
    obtain ⟨_, hoperand, -⟩ := exists_ok_of_bind h
    exact Expression.isSome_of_mem_references hoperand hname
  | binary op left right =>
    simp only [Expression.value] at h
    obtain ⟨_, hleft, h⟩ := exists_ok_of_bind h
    obtain ⟨_, hright, -⟩ := exists_ok_of_bind h
    rcases List.mem_append.mp hname with hname | hname
    · exact Expression.isSome_of_mem_references hleft hname
    · exact Expression.isSome_of_mem_references hright hname
  | array elements =>
    simp only [Expression.value] at h
    obtain ⟨_, helements, -⟩ := exists_ok_of_bind h
    exact ArrayElement.isSome_of_mem_referencesOf helements hname

/-- The elements of an array that have values refer to constants that are known. -/
theorem ArrayElement.isSome_of_mem_referencesOf {elements : List ArrayElement}
    {values : List (Option Value × Value)} {name : String}
    (h : ArrayElement.values lookup elements = .ok values)
    (hname : name ∈ ArrayElement.referencesOf elements) : (lookup name).isSome := by
  match elements with
  | [] => cases hname
  | .positional value :: rest =>
    simp only [ArrayElement.values] at h
    obtain ⟨_, hvalue, h⟩ := exists_ok_of_bind h
    obtain ⟨_, hrest, -⟩ := exists_ok_of_bind h
    rcases List.mem_append.mp hname with hname | hname
    · exact Expression.isSome_of_mem_references hvalue hname
    · exact ArrayElement.isSome_of_mem_referencesOf hrest hname
  | .keyed key value :: rest =>
    simp only [ArrayElement.values] at h
    obtain ⟨_, hkey, h⟩ := exists_ok_of_bind h
    obtain ⟨_, hvalue, h⟩ := exists_ok_of_bind h
    obtain ⟨_, hrest, -⟩ := exists_ok_of_bind h
    rcases List.mem_append.mp hname with hname | hname
    · exact Expression.isSome_of_mem_references hkey hname
    · rcases List.mem_append.mp hname with hname | hname
      · exact Expression.isSome_of_mem_references hvalue hname
      · exact ArrayElement.isSome_of_mem_referencesOf hrest hname

end

/-! ## Evaluation of tokens -/

/-- The tokens spell an expression that refers to a constant under a name. -/
def RefersTo (room : Nat) (ts : List Token) (name : String) : Prop :=
  ∃ e, Expression.ofTokens room ts = .ok e ∧ name ∈ e.references

/-- Tokens have the same value under two lookups that agree on what they refer to. -/
theorem evaluate_congr_of_eq_ok {room : Nat} {ts : List Token} {v : Value}
    (hagree : ∀ name, RefersTo room ts name → lookup name = lookup' name)
    (h : evaluate lookup room ts = .ok v) : evaluate lookup' room ts = .ok v := by
  obtain ⟨e, he, hv⟩ := evaluate_eq_ok_iff.mp h
  have hvalue := e.value_congr fun name hname => hagree name ⟨e, he, hname⟩
  exact evaluate_eq_ok_iff.mpr ⟨e, he, hvalue ▸ hv⟩

/-- Tokens that have a value refer to constants that are known. -/
theorem isSome_of_refersTo {room : Nat} {ts : List Token} {v : Value} {name : String}
    (h : evaluate lookup room ts = .ok v) (hname : RefersTo room ts name) :
    (lookup name).isSome := by
  obtain ⟨e, he, hv⟩ := evaluate_eq_ok_iff.mp h
  obtain ⟨e', he', hname⟩ := hname
  cases he.symm.trans he'
  exact Expression.isSome_of_mem_references hv hname

end Reflection
