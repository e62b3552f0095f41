import Reflection.Scope.Traversal

/-!
# What one step of a traversal can do

The stack of open scopes changes in one of five ways when a token is passed. Everything that holds of
the scopes of a whole run is derived from these, not from the kinds of tokens.

## Main definitions

* `ScopeStep`: the change of the open scopes at a token, with the events that report it.
* `Numbered`: the tokens of a list stand at consecutive positions.

## Main statements

* `Traversal.process_scopeStep`: processing a token is a scope step.
* `Traversal.run_append`: a run over two stretches is a run over one and then over the other.
* `Traversal.mem_of_passed_run`: a run passes the tokens that it is given.
-/
namespace Reflection

/-- The change of the open scopes at a token, the innermost first, and the events that report it. -/
inductive ScopeStep (t : Token) : List Scope → List Scope → List Event → Prop
  | keep (scopes : List Scope) : ScopeStep t scopes scopes []
  | opens (scopes : List Scope) (s : Scope) (hfirst : s.first = t.index) (hlast : s.last = none)
      (hlevel : s.level = scopes.length) : ScopeStep t scopes (s :: scopes) [.opened s]
  | closes (s : Scope) (rest : List Scope) :
      ScopeStep t (s :: rest) rest [.closed (s.close t.index)]
  | closesBefore (s : Scope) (rest : List Scope) (hbraceless : s.braceless = true) :
      ScopeStep t (s :: rest) rest [.closed (s.close (t.index - 1))]
  | unbalanced : ScopeStep t [] [] [.unbalanced t.index]

/-- The tokens of a list stand at the positions `first`, `first + 1` and so on. -/
def Numbered (first : Int) : List Token → Prop
  | [] => True
  | t :: rest => t.index = first ∧ Numbered (first + 1) rest

@[simp] theorem numbered_nil (first : Int) : Numbered first [] := trivial

@[simp] theorem numbered_cons (first : Int) (t : Token) (rest : List Token) :
    Numbered first (t :: rest) ↔ t.index = first ∧ Numbered (first + 1) rest := Iff.rfl

theorem numbered_append (first : Int) (xs ys : List Token) :
    Numbered first (xs ++ ys) ↔ Numbered first xs ∧ Numbered (first + xs.length) ys := by
  induction xs generalizing first with
  | nil => simp
  | cons t rest ih =>
    have hlength : first + ((rest.length + 1 : Nat) : Int) = first + 1 + rest.length := by omega
    simp only [List.cons_append, numbered_cons, ih, List.length_cons, hlength, and_assoc]

/-- The positions of numbered tokens. -/
theorem Numbered.index_mem {first : Int} {ts : List Token} (h : Numbered first ts) {t : Token}
    (ht : t ∈ ts) : first ≤ t.index ∧ t.index < first + ts.length := by
  obtain ⟨before, after, rfl⟩ := List.append_of_mem ht
  have hindex := ((numbered_append first before (t :: after)).mp h).2.1
  simp only [List.length_append, List.length_cons]
  omega

/-- No token stands in two stretches of numbered tokens. -/
theorem Numbered.not_mem {first : Int} {xs ys : List Token} (h : Numbered first (xs ++ ys)) {t : Token}
    (ht : t ∈ xs) : t ∉ ys := by
  obtain ⟨hxs, hys⟩ := (numbered_append first xs ys).mp h
  intro hmem
  have hindex := hxs.index_mem ht
  have hindex' := hys.index_mem hmem
  omega

theorem numbered_number (first : Int) (ts : List Token) : Numbered first (Token.number first ts) := by
  induction ts generalizing first with
  | nil => trivial
  | cons t rest ih => exact ⟨rfl, ih (first + 1)⟩

namespace Traversal

theorem openScope_scopeStep (s : Traversal) (t : Token) (braceless : Bool) :
    ScopeStep t s.scopes (s.openScope t.index braceless).1.scopes
      (s.openScope t.index braceless).2 :=
  .opens s.scopes _ rfl rfl rfl

theorem closeScope_scopeStep (s : Traversal) (t : Token) :
    ScopeStep t s.scopes (s.closeScope t.index).1.scopes (s.closeScope t.index).2 := by
  obtain ⟨scopes, pending, previous⟩ := s
  cases scopes with
  | nil => exact .unbalanced
  | cons s rest => exact .closes s rest

theorem closeBraceless_scopeStep (s : Traversal) (t : Token) :
    ScopeStep t s.scopes (s.closeBraceless t.index).1.scopes (s.closeBraceless t.index).2 := by
  obtain ⟨scopes, pending, previous⟩ := s
  cases scopes with
  | nil => exact .keep []
  | cons s rest =>
    by_cases h : s.braceless = true
    · simp only [closeBraceless, h, if_true, closeScope]
      exact .closesBefore s rest h
    · simp only [closeBraceless, h, Bool.false_eq_true, if_false]
      exact .keep (s :: rest)

theorem terminate_scopeStep (s : Traversal) (t : Token) :
    ScopeStep t s.scopes (s.terminate t.index).1.scopes (s.terminate t.index).2 := by
  unfold terminate
  split
  · exact s.openScope_scopeStep t true
  · exact .keep _
  · exact .keep _

/-- Whatever a token is and wherever it stands, processing it opens at most one scope, at its own
position, or closes at most the innermost one, there or right before it. -/
theorem process_scopeStep (s : Traversal) (t : Token) (rest : List Token) :
    ScopeStep t s.scopes (s.process t rest).1.scopes (s.process t rest).2 := by
  unfold process
  split
  · split
    · exact openScope_scopeStep { s with pending := some t } t false
    · exact .keep _
  · split
    · exact .keep _
    · exact s.closeBraceless_scopeStep t
  · exact .keep _
  · exact .keep _
  · split <;> exact .keep _
  · split <;> exact .keep _
  · split
    · exact s.terminate_scopeStep t
    · split
      · exact s.openScope_scopeStep t false
      · split
        · exact s.closeScope_scopeStep t
        · exact .keep _
  · exact .keep _

theorem scopes_step (s : Traversal) (t : Token) (rest : List Token) :
    (s.step t rest).1.scopes = (s.process t rest).1.scopes := by
  unfold step
  dsimp only
  split <;> rfl

/-- A step reports what processing reports, and then the token itself. -/
theorem events_step (s : Traversal) (t : Token) (rest : List Token) :
    (s.step t rest).2 = (s.process t rest).2 ++ [.passed t (s.step t rest).1.current?] := by
  unfold step
  dsimp only

@[simp] theorem run_nil (beyond : List Token) (s : Traversal) : run beyond s [] = (s, []) := rfl

theorem run_cons (beyond : List Token) (s : Traversal) (t : Token) (rest : List Token) :
    run beyond s (t :: rest) =
      ((run beyond (s.step t (rest ++ beyond)).1 rest).1,
        (s.step t (rest ++ beyond)).2 ++ (run beyond (s.step t (rest ++ beyond)).1 rest).2) := rfl

theorem run_append (beyond : List Token) (s : Traversal) (xs ys : List Token) :
    run beyond s (xs ++ ys) =
      ((run beyond (run (ys ++ beyond) s xs).1 ys).1,
        (run (ys ++ beyond) s xs).2 ++ (run beyond (run (ys ++ beyond) s xs).1 ys).2) := by
  induction xs generalizing s with
  | nil => simp
  | cons t rest ih =>
    rw [List.cons_append, run_cons, run_cons, ih, List.append_assoc rest ys beyond]
    simp only [List.append_assoc]

/-! ## Tokens that are passed -/

variable {s : Traversal} {t u : Token} {rest : List Token} {scope : Option Scope}

/-- Processing a token reports no token: passing it does. -/
theorem not_passed_process : Event.passed u scope ∉ (s.process t rest).2 := by
  have hstep := s.process_scopeStep t rest
  revert hstep
  generalize (s.process t rest).1.scopes = after, (s.process t rest).2 = events, s.scopes = before
  intro hstep
  cases hstep <;> simp

theorem eq_of_passed_step (h : Event.passed u scope ∈ (s.step t rest).2) : u = t := by
  rw [events_step, List.mem_append, List.mem_singleton] at h
  rcases h with h | h
  · exact absurd h not_passed_process
  · cases h
    rfl

/-- A run passes the tokens that it is given. -/
theorem mem_of_passed_run {ts beyond : List Token} (h : Event.passed u scope ∈ (run beyond s ts).2) :
    u ∈ ts := by
  induction ts generalizing s with
  | nil => cases h
  | cons t rest ih =>
    rw [run_cons] at h
    rcases List.mem_append.mp h with h | h
    · rw [eq_of_passed_step h]
      exact List.mem_cons_self ..
    · exact List.mem_cons_of_mem t (ih h)

theorem not_passed_finish {last : Int} : Event.passed u scope ∉ s.finish last := by
  intro h
  obtain ⟨c, -, hc⟩ := List.mem_map.mp h
  cases hc

end Traversal
end Reflection
