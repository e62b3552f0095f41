import Reflection.Field.Service
import Reflection.Proofs.Field.Outcome
import Reflection.Proofs.Number.Bitwise

/-!
# Choice of a binding

The binding of a field is chosen from its accessor methods, its visibility and what the request permits.
What the request needs has no part in the choice: it is checked on the binding that was chosen.

## Main definitions

* `Binding.ofParts`: the binding with given methods and a given field.
* `AccessFlags.check`: whether a binding has what a request needs.

## Main statements

* `ClassTable.bind_eq`: the binding is chosen, then checked.
* `Binding.read_notReadable_iff`, `Binding.write_notWritable_iff`: reading and writing are refused just
  where a binding cannot do it.
* `bind_eq_check`: needs never change the choice.
-/
namespace Reflection

open Access

namespace Binding

/-! ## Parts -/

/-- The binding with given methods and a given field. -/
def ofParts (owner name : String) (reader writer : Option MethodHandle) (field : Option Field) :
    Binding :=
  if reader.isSome || writer.isSome then methods owner name reader writer field
  else
    match field with
    | some f => if f.accessible then direct f else unresolved owner name (some f)
    | none => unresolved owner name none

variable (owner name : String) (reader writer : Option MethodHandle) (field : Option Field)

@[simp] theorem reader?_ofParts : (ofParts owner name reader writer field).reader? = reader := by
  unfold ofParts
  split_ifs with h
  · rfl
  · simp only [Bool.or_eq_true, not_or, Option.not_isSome_iff_eq_none] at h
    rw [h.1]
    split
    · split_ifs <;> rfl
    · rfl

@[simp] theorem writer?_ofParts : (ofParts owner name reader writer field).writer? = writer := by
  unfold ofParts
  split_ifs with h
  · rfl
  · simp only [Bool.or_eq_true, not_or, Option.not_isSome_iff_eq_none] at h
    rw [h.2]
    split
    · split_ifs <;> rfl
    · rfl

@[simp] theorem field?_ofParts : (ofParts owner name reader writer field).field? = field := by
  unfold ofParts
  split_ifs with h
  · rfl
  · split
    · split_ifs <;> rfl
    · rfl

@[simp] theorem canRead_ofParts :
    (ofParts owner name reader writer field).canRead =
      (reader.isSome || field.any (·.accessible)) := by
  simp [canRead, isAccessible]

@[simp] theorem canWrite_ofParts :
    (ofParts owner name reader writer field).canWrite =
      (writer.isSome || field.any (·.accessible)) := by
  simp [canWrite, isAccessible]

end Binding

/-! ## Refusals -/

namespace Field

theorem outcome_read (f : Field) (t : ClassTable) (o : Instance) :
    outcome (f.read t) o =
      if f.accessible then outcome (getAttribute t f.stored) o
      else .error (.notReadable f.owner.fullName f.name) := by
  unfold read
  split_ifs <;> rfl

theorem outcome_write (f : Field) (t : ClassTable) (v : Value) (o : Instance) :
    outcome (f.write t v) o =
      if f.accessible then outcome (setAttribute t f.stored v) o
      else .error (.notWritable f.owner.fullName f.name) := by
  unfold write
  split_ifs <;> rfl

end Field

namespace Binding

/-- A binding refuses to read just where it cannot. -/
theorem read_notReadable_iff (b : Binding) (t : ClassTable) (o : Instance) :
    (∃ owner field, outcome (b.read t) o = .error (.notReadable owner field)) ↔
      b.canRead = false := by
  simp only [read, canRead, isAccessible]
  cases hreader : b.reader? with
  | some m =>
    have hfails := m.failsWith_invoke t []
    simp only [Option.isSome_some, Bool.true_or, Bool.true_eq_false, iff_false]
    intro ⟨owner, field, h⟩
    exact hfails o _ h
  | none =>
    cases hfield : b.field? with
    | none => simp
    | some f =>
      simp only [Option.isSome_none, Bool.false_or, Option.any_some, f.outcome_read]
      cases hacc : f.accessible with
      | false => simp
      | true =>
        simp only [if_true, Bool.true_eq_false, iff_false]
        intro ⟨owner, field, h⟩
        exact failsWith_getAttribute t f.stored o _ h

/-- A binding refuses to write just where it cannot. -/
theorem write_notWritable_iff (b : Binding) (t : ClassTable) (v : Value) (o : Instance) :
    (∃ owner field, outcome (b.write t v) o = .error (.notWritable owner field)) ↔
      b.canWrite = false := by
  simp only [write, canWrite, isAccessible]
  cases hwriter : b.writer? with
  | some m =>
    have hfails : FailsWith AccessFault.OfMethod (do let _ ← m.invoke t [v]) :=
      (m.failsWith_invoke t [v]).bind fun _ => failsWith_pure ()
    simp only [Option.isSome_some, Bool.true_or, Bool.true_eq_false, iff_false]
    intro ⟨owner, field, h⟩
    exact hfails o _ h
  | none =>
    cases hfield : b.field? with
    | none => simp
    | some f =>
      simp only [Option.isSome_none, Bool.false_or, Option.any_some, f.outcome_write]
      cases hacc : f.accessible with
      | false => simp
      | true =>
        simp only [if_true, Bool.true_eq_false, iff_false]
        intro ⟨owner, field, h⟩
        exact failsWith_setAttribute t f.stored v o _ h

end Binding

/-! ## Needs -/

namespace AccessFlags

theorem covers_two_pow (n : Int) (i : Nat) : covers n (2 ^ i : Nat) = n.testBit i := by
  rw [Bool.eq_iff_iff, covers, beq_iff_eq]
  exact Number.bitAnd_two_pow_eq_iff n i

/-- Each flag is one bit. -/
theorem ofInt_eq (n : Int) :
    ofInt n = ⟨n.testBit 0, n.testBit 1, n.testBit 2, n.testBit 3, n.testBit 5, n.testBit 6,
      n.testBit 9, n.testBit 10⟩ := by
  simp only [ofInt, ← covers_two_pow]
  rfl

/-- Without the two bits for them, a request has no needs. -/
theorem ofInt_withoutNeeds (n : Int) :
    ofInt (Number.bitAnd n (Number.bitNot 0x6)) = (ofInt n).withoutNeeds := by
  have hbits : ∀ i ∈ [0, 3, 5, 6, 9, 10], (0x6 : Int).testBit i = false := by decide
  have hread : (0x6 : Int).testBit 2 = true := by decide
  have hwrite : (0x6 : Int).testBit 1 = true := by decide
  simp only [List.forall_mem_cons] at hbits
  simp [ofInt_eq, withoutNeeds, hbits, hread, hwrite]

@[simp] theorem stored_exposed (flags : AccessFlags) (f : Field) :
    (flags.exposed f).stored = f.stored := by
  unfold exposed
  split_ifs <;> rfl

/-- The binding of a name in a class, if it has what the request needs. -/
def check (flags : AccessFlags) (owner name : String) (b : Binding) : Except AccessFault Binding :=
  if flags.needsRead && !b.canRead then .error (.notReadable owner name)
  else if flags.needsWrite && !b.canWrite then .error (.notWritable owner name)
  else .ok b

end AccessFlags

namespace ClassTable

variable (t : ClassTable) (verbs : Verbs) (c : ClassId) (name : String) (field : Option Field)
  (flags : AccessFlags)

/-- The binding that is chosen for a field. -/
def choose : Binding :=
  .ofParts (t.fullName c) name
    (if flags.usesReader field then accessor? c field (t.reader? verbs name) else none)
    (if flags.usesWriter field then accessor? c field (t.writer? verbs name) else none)
    (field.map flags.exposed)

/-- A binding is chosen, then checked. -/
theorem bind_eq :
    t.bind verbs c name field flags =
      flags.check (t.fullName c) name (t.choose verbs c name field flags) := by
  unfold bind choose
  dsimp only
  generalize (if flags.usesReader field then accessor? c field (t.reader? verbs name) else none) =
    reader
  generalize (if flags.usesWriter field then accessor? c field (t.writer? verbs name) else none) =
    writer
  generalize field.map flags.exposed = found
  simp only [AccessFlags.check, Binding.canRead_ofParts, Binding.canWrite_ofParts, Bool.not_or,
    Option.not_isSome, Bool.and_assoc]
  unfold Binding.ofParts
  split_ifs
  · rfl
  · rfl
  · rfl
  · cases found <;> rfl

/-- The binding of a name is chosen for the field that is located, then checked. -/
theorem bindName_eq (name : String) :
    t.bindName verbs c name flags =
      flags.check (t.fullName c) (Field.publicName name)
        (t.choose verbs c (Field.publicName name) (t.locate? c name flags.exposesInherited) flags) :=
  t.bind_eq verbs c _ _ flags

end ClassTable

/-- Needs only check, they never change the choice. Without them a request for a name gets a binding in
any case. With them it is refused where that binding cannot read although it must, or else where it
cannot write although it must, and otherwise gets the same binding. A binding that cannot read or write
refuses to, and one that can does not, whatever the object. -/
theorem bind_eq_check (s : FieldService) (t : ClassTable) (target : ClassTarget) (name : String)
    (flags : Int) :
    ∃ b, (s.bind t target name (.ofInt (Number.bitAnd flags (Number.bitNot 0x6)))).2 = .ok b ∧
      (s.bind t target name (.ofInt flags)).2 =
        (if AccessFlags.covers flags 0x4 ∧ b.canRead = false then
          .error (.notReadable (t.fullName target.type) (Field.publicName name))
        else if AccessFlags.covers flags 0x2 ∧ b.canWrite = false then
          .error (.notWritable (t.fullName target.type) (Field.publicName name))
        else .ok b) ∧
      ∀ o v,
        ((∃ owner field, outcome (b.read t) o = .error (.notReadable owner field)) ↔
          b.canRead = false) ∧
        ((∃ owner field, outcome (b.write t v) o = .error (.notWritable owner field)) ↔
          b.canWrite = false) := by
  rw [AccessFlags.ofInt_withoutNeeds]
  refine ⟨t.choose s.verbs target.type (Field.publicName name)
    (t.locate? target.type name (AccessFlags.ofInt flags).exposesInherited) (.ofInt flags), ?_, ?_, ?_⟩
  · exact (t.bindName_eq s.verbs target.type (AccessFlags.ofInt flags).withoutNeeds name).trans rfl
  · refine (t.bindName_eq s.verbs target.type (.ofInt flags) name).trans ?_
    simp only [AccessFlags.check, Bool.and_eq_true, Bool.not_eq_true']
    rfl
  · intro o v
    exact ⟨Binding.read_notReadable_iff _ t o, Binding.write_notWritable_iff _ t v o⟩

end Reflection
