/-!
# Reports

A report is the outcome of a computation that may fail, together with the warnings that it gave on
the way. A failure ends a sequence of computations and keeps the warnings given until then.

## Main statements

* `Report.outcome_bind`, `Report.warnings_bind`: what a sequence of two computations reports.
-/
namespace Reflection

/-- An outcome and the warnings that came before it. -/
structure Report (ε α : Type) where
  outcome : Except ε α
  warnings : List String := []

namespace Report

variable {ε α β γ : Type}

@[ext] theorem ext {r s : Report ε α} (ho : r.outcome = s.outcome)
    (hw : r.warnings = s.warnings) : r = s := by
  cases r; cases s; simp_all

/-- Success without warnings. -/
def pure (a : α) : Report ε α := ⟨.ok a, []⟩

/-- One computation after the other. -/
def bind (r : Report ε α) (f : α → Report ε β) : Report ε β :=
  match r.outcome with
  | .ok a => ⟨(f a).outcome, r.warnings ++ (f a).warnings⟩
  | .error e => ⟨.error e, r.warnings⟩

instance : Monad (Report ε) where
  pure := pure
  bind := bind

/-- Failure without warnings. -/
def fail (e : ε) : Report ε α := ⟨.error e, []⟩

/-- An outcome without warnings. -/
def ofExcept (o : Except ε α) : Report ε α := ⟨o, []⟩

/-- Success with warnings. -/
def warn (warnings : List String) : Report ε Unit := ⟨.ok (), warnings⟩

/-- The report with its failure, if any, put in other terms. -/
def mapError {ε' : Type} (f : ε → ε') (r : Report ε α) : Report ε' α :=
  ⟨r.outcome.mapError f, r.warnings⟩

@[simp] theorem outcome_pure (a : α) : (Pure.pure a : Report ε α).outcome = .ok a := rfl

@[simp] theorem warnings_pure (a : α) : (Pure.pure a : Report ε α).warnings = [] := rfl

@[simp] theorem outcome_bind (r : Report ε α) (f : α → Report ε β) :
    (r >>= f).outcome = r.outcome >>= fun a => (f a).outcome := by
  show (bind r f).outcome = _
  unfold bind
  cases h : r.outcome <;> simp [Bind.bind, Except.bind]

@[simp] theorem warnings_bind (r : Report ε α) (f : α → Report ε β) :
    (r >>= f).warnings = r.warnings ++
      match r.outcome with
      | .ok a => (f a).warnings
      | .error _ => [] := by
  show (bind r f).warnings = _
  unfold bind
  cases h : r.outcome <;> simp

theorem id_map (r : Report ε α) : id <$> r = r := by
  show bind r (fun a => pure a) = r
  apply ext <;> (unfold bind; cases h : r.outcome <;> simp [pure])

theorem bind_assoc (r : Report ε α) (f : α → Report ε β) (g : β → Report ε γ) :
    r >>= f >>= g = r >>= fun a => f a >>= g := by
  apply ext
  · simp [Bind.bind]
    unfold bind
    cases r.outcome with
    | error e => rfl
    | ok a => cases h : (f a).outcome <;> simp [h]
  · show (bind (bind r f) g).warnings = (bind r fun a => bind (f a) g).warnings
    unfold bind
    cases r.outcome with
    | error e => rfl
    | ok a => cases h : (f a).outcome <;> simp [h]

instance : LawfulMonad (Report ε) := LawfulMonad.mk' _ id_map (fun _ _ => rfl) bind_assoc

end Report
end Reflection
