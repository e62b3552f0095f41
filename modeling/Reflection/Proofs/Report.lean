import Reflection.Report

/-!
# Folds that report

A fold whose steps report ends as the fold over their outcomes does. Where another fold follows every
step that succeeds, it follows the whole fold; where the two agree in every step, they end alike.

## Main definitions

* `Agree`: two outcomes that are alike.

## Main statements

* `Agree.foldlM`: folds that agree in every step.
* `Report.outcome_foldlM`: the outcome of a fold.
* `Report.exists_foldlM_of_step`: a fold that follows another one step by step.
-/
namespace Reflection

/-- Two computations succeed one after the other where each of them does. -/
theorem exists_ok_of_bind {ε α β : Type} {x : Except ε α} {f : α → Except ε β} {b : β}
    (h : (x >>= f) = .ok b) : ∃ a, x = .ok a ∧ f a = .ok b := by
  cases x with
  | error fault => cases h
  | ok a => exact ⟨a, rfl, h⟩

theorem exists_ok_of_map {ε α β : Type} {x : Except ε α} {f : α → β} {b : β}
    (h : x.map f = .ok b) : ∃ a, x = .ok a ∧ b = f a := by
  cases x with
  | error fault => cases h
  | ok a =>
    cases h
    exact ⟨a, rfl, rfl⟩

theorem exists_ok_of_isOk {ε α : Type} {x : Except ε α} (h : x.isOk) : ∃ a, x = .ok a := by
  cases x with
  | error fault => cases h
  | ok a => exact ⟨a, rfl⟩

/-- What is read off the result of a computation, where this succeeds. -/
theorem read_of_eq_ok {ε α β : Type} (read : α → β) {x : Except ε α} {a : α} {b : β}
    (h : x = .ok a) (hread : x.map read = .ok b) : read a = b := by
  rw [h] at hread
  exact Except.ok.inj hread

/-- What follows a computation that succeeds. -/
theorem bind_of_eq_ok {ε α β : Type} {x : Except ε α} {a : α} (h : x = .ok a)
    (f : α → Except ε β) : (x >>= f) = f a := by
  rw [h]
  rfl

section

variable {m : Type → Type} [Monad m] {τ α β : Type}

/-- A fold over the parts of every element is a fold over all parts. -/
theorem foldlM_flatMap_parts [LawfulMonad m] (g : τ → β → m τ) (parts : α → List β) (t : τ)
    (xs : List α) :
    (xs.flatMap parts).foldlM g t = xs.foldlM (fun t x => (parts x).foldlM g t) t := by
  induction xs generalizing t with
  | nil => rfl
  | cons x rest ih => simp only [List.flatMap_cons, List.foldlM_append, List.foldlM_cons, ih]

/-- Folds whose steps agree on the elements of a list agree. -/
theorem foldlM_congr_mem {f g : τ → α → m τ} {xs : List α} (h : ∀ x ∈ xs, ∀ t, f t x = g t x)
    (t : τ) : xs.foldlM f t = xs.foldlM g t := by
  induction xs generalizing t with
  | nil => rfl
  | cons x rest ih =>
    rw [List.foldlM_cons, List.foldlM_cons, h x (List.mem_cons_self ..)]
    exact congrArg _ (funext fun t' => ih (fun y hy => h y (List.mem_cons_of_mem x hy)) t')

end

section

variable {ε ε' σ τ ρ ρ' α : Type}

/-- In a fold that succeeds every step succeeds. -/
theorem exists_step_of_foldlM {f : σ → α → Except ε σ} {s s' : σ} {xs : List α}
    (h : xs.foldlM f s = .ok s') : ∀ x ∈ xs, ∃ t t', f t x = .ok t' := by
  induction xs generalizing s with
  | nil => exact fun x hx => nomatch hx
  | cons x rest ih =>
    obtain ⟨middle, hx, hrest⟩ := exists_ok_of_bind h
    exact List.forall_mem_cons.mpr ⟨⟨s, middle, hx⟩, ih hrest⟩

/-- A fold succeeds where every step does, whatever came before it. -/
theorem exists_foldlM_of_steps {f : σ → α → Except ε σ} {xs : List α}
    (h : ∀ x ∈ xs, ∀ s, ∃ s', f s x = .ok s') (s : σ) : ∃ s', xs.foldlM f s = .ok s' := by
  induction xs generalizing s with
  | nil => exact ⟨s, rfl⟩
  | cons x rest ih =>
    obtain ⟨hx, hrest⟩ := List.forall_mem_cons.mp h
    obtain ⟨middle, hmiddle⟩ := hx s
    rw [List.foldlM_cons, hmiddle]
    exact ih hrest middle

/-- A fold that fails does so in one of its steps. -/
theorem exists_error_of_foldlM {f : σ → α → Except ε σ} {s : σ} {fault : ε} {xs : List α}
    (h : xs.foldlM f s = .error fault) : ∃ x ∈ xs, ∃ t, f t x = .error fault := by
  induction xs generalizing s with
  | nil => cases h
  | cons x rest ih =>
    rw [List.foldlM_cons] at h
    cases hx : f s x with
    | error fault' =>
      rw [hx] at h
      cases h
      exact ⟨x, List.mem_cons_self .., s, hx⟩
    | ok middle =>
      rw [hx] at h
      obtain ⟨y, hy, t, hfault⟩ := ih h
      exact ⟨y, List.mem_cons_of_mem _ hy, t, hfault⟩

/-- Two computations end alike: they succeed with related results, or the first one fails with the
fault of the second one, put in other terms. -/
def Agree (wrap : ε' → ε) (R : σ → τ → Prop) : Except ε σ → Except ε' τ → Prop
  | .ok s, .ok t => R s t
  | .error fault, .error fault' => fault = wrap fault'
  | _, _ => False

namespace Agree

variable {wrap : ε' → ε} {R : σ → τ → Prop} {x : Except ε σ} {y : Except ε' τ}

theorem bind {Q : ρ → ρ' → Prop} {f : σ → Except ε ρ} {g : τ → Except ε' ρ'} (h : Agree wrap R x y)
    (hstep : ∀ s t, R s t → Agree wrap Q (f s) (g t)) : Agree wrap Q (x >>= f) (y >>= g) := by
  cases x with
  | ok s =>
    cases y with
    | ok t => exact hstep s t h
    | error fault => exact h.elim
  | error fault =>
    cases y with
    | ok t => exact h.elim
    | error fault' => exact h

/-- Folds that agree in every step agree. -/
theorem foldlM {f : σ → α → Except ε σ} {g : τ → α → Except ε' τ} {xs : List α} {s : σ} {t : τ}
    (h : R s t) (hstep : ∀ x ∈ xs, ∀ s t, R s t → Agree wrap R (f s x) (g t x)) :
    Agree wrap R (xs.foldlM f s) (xs.foldlM g t) := by
  induction xs generalizing s t with
  | nil => exact h
  | cons x rest ih =>
    obtain ⟨hx, hrest⟩ := List.forall_mem_cons.mp hstep
    exact (hx s t h).bind fun s t h => ih h hrest

theorem exists_ok_iff (h : Agree wrap R x y) : (∃ s, x = .ok s) ↔ ∃ t, y = .ok t := by
  cases x with
  | ok s =>
    cases y with
    | ok t => exact ⟨fun _ => ⟨t, rfl⟩, fun _ => ⟨s, rfl⟩⟩
    | error fault => exact h.elim
  | error fault =>
    cases y with
    | ok t => exact h.elim
    | error fault' => simp

theorem eq_error (h : Agree wrap R x y) {fault : ε'} (hy : y = .error fault) :
    x = .error (wrap fault) := by
  subst hy
  cases x with
  | ok s => exact h.elim
  | error fault' => exact congrArg Except.error h

end Agree

end

namespace Report

variable {ε ε' σ τ α : Type}

theorem outcome_foldlM (f : σ → α → Report ε σ) (s : σ) (xs : List α) :
    (xs.foldlM f s).outcome = xs.foldlM (fun s x => (f s x).outcome) s := by
  induction xs generalizing s with
  | nil => rfl
  | cons x rest ih => simp only [List.foldlM_cons, outcome_bind, ih]

/-- A fold follows another one, from related states to related states, if its steps do. -/
theorem exists_foldlM_of_step {R : σ → τ → Prop} {f : σ → α → Report ε σ} {g : τ → α → Except ε' τ}
    {s s' : σ} {t : τ} {xs : List α} (h : R s t) (hrun : (xs.foldlM f s).outcome = .ok s')
    (hstep : ∀ s t x s', R s t → (f s x).outcome = .ok s' → ∃ t', g t x = .ok t' ∧ R s' t') :
    ∃ t', xs.foldlM g t = .ok t' ∧ R s' t' := by
  rw [outcome_foldlM] at hrun
  induction xs generalizing s t with
  | nil =>
    cases hrun
    exact ⟨t, rfl, h⟩
  | cons x rest ih =>
    obtain ⟨middle, hx, hrest⟩ := exists_ok_of_bind hrun
    obtain ⟨u, hg, hmiddle⟩ := hstep s t x middle h hx
    obtain ⟨t', hrun', hend⟩ := ih hmiddle hrest
    refine ⟨t', ?_, hend⟩
    rw [List.foldlM_cons, hg]
    exact hrun'

/-- What every step keeps, the whole fold keeps. -/
theorem foldlM_keeps {P : σ → Prop} {f : σ → α → Report ε σ}
    {s s' : σ} {xs : List α} (h : P s) (hrun : (xs.foldlM f s).outcome = .ok s')
    (hstep : ∀ s x s', P s → (f s x).outcome = .ok s' → P s') : P s' := by
  rw [outcome_foldlM] at hrun
  induction xs generalizing s with
  | nil =>
    cases hrun
    exact h
  | cons x rest ih =>
    obtain ⟨middle, hx, hrest⟩ := exists_ok_of_bind hrun
    exact ih (hstep s x middle h hx) hrest

end Report
end Reflection
