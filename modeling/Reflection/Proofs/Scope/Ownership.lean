import Reflection.Proofs.Scope.Nesting

/-!
# Who owns a scope, and what is around it

A scope belongs to a declaration keyword that was passed before the scope opened, and its parent is
the owner of the innermost scope around it. This holds of every stream: a keyword waits for its block
until it is replaced or used up, and the stack of open scopes is what is around the next position.

## Main definitions

* `enclosing?`: the innermost of the scopes around the start of a scope.
* `Attributed`: the owners and parents of the scopes of a traversal that is still under way.

## Main statements

* `Attributed.step`, `Attributed.run`: a step keeps the invariant, and so does a run.
* `Tracks.mem_closedScopes_iff`: the scopes that close are the scopes of the events.
-/
namespace Reflection

/-- The innermost of the scopes around the start of a scope: the one that opens last of those that
span it. -/
def enclosing? (scopes : List Scope) (b : Scope) : Option Scope :=
  (scopes.filter (·.spans b.first)).getLast?

theorem scopesOf_append (events : List Event) (e : Event) :
    scopesOf (events ++ [e]) = recordScope (scopesOf events) e := by
  rw [scopesOf, List.foldl_append]
  rfl

/-! ## What a step does to owners -/

namespace Traversal

section

variable {s : Traversal} {scope : Scope} {index : Int}

theorem opened_openScope {braceless : Bool} (h : .opened scope ∈ (s.openScope index braceless).2) :
    scope.parent = s.scopes.head?.bind Scope.owner ∧ scope.owner = s.pending := by
  cases List.mem_singleton.mp h
  exact ⟨rfl, rfl⟩

theorem not_opened_closeScope : .opened scope ∉ (s.closeScope index).2 := by
  unfold closeScope
  split <;> simp

theorem not_opened_closeBraceless : .opened scope ∉ (s.closeBraceless index).2 := by
  unfold closeBraceless
  split
  · split
    · exact not_opened_closeScope
    · exact List.not_mem_nil
  · exact List.not_mem_nil

theorem opened_terminate (h : .opened scope ∈ (s.terminate index).2) :
    scope.parent = s.scopes.head?.bind Scope.owner ∧ scope.owner = s.pending := by
  unfold terminate at h
  split at h
  · exact opened_openScope h
  · cases h
  · cases h

/-- A scope that opens belongs to the keyword that waits, or to an open tag right there, and its parent
is the owner of the innermost open scope. -/
theorem opened_process {t : Token} {rest : List Token} (h : .opened scope ∈ (s.process t rest).2) :
    scope.parent = s.scopes.head?.bind Scope.owner ∧
      (scope.owner = s.pending ∨ (scope.owner = some t ∧ t.kind = .openTag)) := by
  unfold process at h
  split at h
  · rename_i hkind
    split at h
    · exact (opened_openScope h).imp_right fun howner => .inr ⟨howner, hkind⟩
    · cases h
  · split at h
    · cases h
    · exact absurd h not_opened_closeBraceless
  · cases h
  · cases h
  · split at h <;> cases h
  · split at h <;> cases h
  · split at h
    · exact (opened_terminate h).imp_right .inl
    · split at h
      · exact (opened_openScope h).imp_right .inl
      · split at h
        · exact absurd h not_opened_closeScope
        · cases h
  · cases h

end

theorem pending_closeScope (s : Traversal) (last : Int) :
    (s.closeScope last).1.pending = s.pending := by
  unfold closeScope
  split <;> rfl

/-- After a token the same keyword waits, none does, or the token itself, which is no open tag. -/
theorem pending_process (s : Traversal) (t : Token) (rest : List Token) :
    (s.process t rest).1.pending = s.pending ∨ (s.process t rest).1.pending = none ∨
      ((s.process t rest).1.pending = some t ∧ t.kind ≠ .openTag) := by
  unfold process
  split
  · split
    · exact .inr (.inl rfl)
    · exact .inl rfl
  · rename_i hkind
    split
    · exact .inl rfl
    · exact .inr (.inr ⟨rfl, by simp [hkind]⟩)
  · rename_i hkind
    exact .inr (.inr ⟨rfl, by simp [hkind]⟩)
  · rename_i hkind
    exact .inr (.inr ⟨rfl, by simp [hkind]⟩)
  · rename_i hkind
    split
    · exact .inl rfl
    · exact .inr (.inr ⟨rfl, by simp [hkind]⟩)
  · rename_i hkind
    split
    · exact .inr (.inr ⟨rfl, by simp [hkind]⟩)
    · exact .inl rfl
  · split
    · unfold terminate
      split
      · exact .inr (.inl rfl)
      · exact .inr (.inl rfl)
      · exact .inl rfl
    · split
      · exact .inr (.inl rfl)
      · split
        · exact .inl (pending_closeScope s t.index)
        · exact .inl rfl
  · exact .inl rfl

theorem pending_step (s : Traversal) (t : Token) (rest : List Token) :
    (s.step t rest).1.pending = (s.process t rest).1.pending := by
  unfold step
  dsimp only
  split <;> rfl

end Traversal

/-! ## The invariant -/

/-- Where a traversal of some tokens stands before the position `next`: the keyword that waits was
passed, every scope belongs to a token that was passed before it opened or to an open tag, and the
parent of a scope is the owner of the innermost scope around it. -/
structure Attributed (tokens : List Token) (next : Int) (events : List Event)
    (pending : Option Token) : Prop where
  pending : ∀ t, pending = some t → t ∈ tokens ∧ t.kind ≠ .openTag ∧ t.index < next
  owner : ∀ a ∈ scopesOf events, ∀ t, a.owner = some t →
    t ∈ tokens ∧ (t.kind ≠ .openTag → t.index < a.first)
  parent : ∀ b ∈ scopesOf events, b.parent = (enclosing? (scopesOf events) b).bind Scope.owner

namespace Tracks

variable {first next : Int} {events : List Event} {scopes stack : List Scope}

/-- Scopes that start at one position are the same. -/
theorem eq_of_first (h : Tracks first next events scopes stack) {a b : Scope} (ha : a ∈ scopes)
    (hb : b ∈ scopes) (hfirst : a.first = b.first) : a = b := by
  have hmem : ∀ c ∈ scopes, c.first = b.first → c ∈ scopes.filter (·.first = b.first) := by
    intro c hc hfirst
    exact List.mem_filter.mpr ⟨hc, decide_eq_true hfirst⟩
  have ha' := hmem a ha hfirst
  have hb' := hmem b hb rfl
  rcases h.filter_first b.first with hnil | ⟨c, -, hone⟩
  · rw [hnil] at hb'
    cases hb'
  · rw [hone, List.mem_singleton] at ha' hb'
    rw [ha', hb']

/-- Of the scopes so far, the open ones span the next position. -/
theorem spans_next (h : Tracks first next events scopes stack) {a : Scope} (ha : a ∈ scopes) :
    a.spans next = a.last.isNone := by
  have hlt := (h.bounds a ha).2
  cases hlast : a.last with
  | none => simp [Scope.spans, hlast, hlt]
  | some last =>
    have hend := (h.ends a ha last hlast).2
    simp [Scope.spans, hlast, hend]

/-- The innermost open scope is the innermost one around the next position. -/
theorem enclosing?_next (h : Tracks first next events scopes stack) {s : Scope}
    (hs : s.first = next) : enclosing? scopes s = stack.head? := by
  have hfilter : scopes.filter (·.spans s.first) = scopes.filter (·.last.isNone) :=
    List.filter_congr fun a ha => by rw [hs, h.spans_next ha]
  rw [enclosing?, hfilter, h.stack_eq, List.head?_reverse]

/-- The scopes that close are those of the events that have an end. -/
theorem mem_closedScopes_iff (h : Tracks first next events scopes stack) (a : Scope) :
    a ∈ closedScopes events ↔ a ∈ scopes ∧ a.last.isSome = true := by
  have hclosed : a ∈ closedScopes events ↔ Event.closed a ∈ eventsOfScope a.first events := by
    simp only [closedScopes, eventsOfScope, List.mem_filterMap, List.mem_filter]
    constructor
    · rintro ⟨e, he, hscope⟩
      cases e <;> cases hscope
      exact ⟨he, by simp [Event.scopeFirst?]⟩
    · rintro ⟨he, -⟩
      exact ⟨_, he, rfl⟩
  rw [hclosed, h.histories, List.mem_flatMap]
  constructor
  · rintro ⟨b, hb, hhistory⟩
    have hmem := (List.mem_filter.mp hb).1
    cases hlast : b.last with
    | none => simp [Scope.history, hlast] at hhistory
    | some last =>
      have heq : a = b := by simpa [Scope.history, hlast] using hhistory
      exact heq ▸ ⟨hmem, by rw [hlast]; rfl⟩
  · rintro ⟨ha, hlast⟩
    exact ⟨a, List.mem_filter.mpr ⟨ha, decide_eq_true rfl⟩, by simp [Scope.history, hlast]⟩

end Tracks

namespace Attributed

variable {tokens : List Token} {first next : Int} {events : List Event} {scopes stack : List Scope}
  {pending : Option Token}

theorem start (tokens : List Token) (next : Int) : Attributed tokens next [] none where
  pending _ h := nomatch h
  owner _ h := nomatch h
  parent _ h := nomatch h

/-- Another keyword may wait, or none. -/
theorem wait (h : Attributed tokens next events pending) {next' : Int} {pending' : Option Token}
    (hpending : ∀ t, pending' = some t → t ∈ tokens ∧ t.kind ≠ .openTag ∧ t.index < next') :
    Attributed tokens next' events pending' :=
  ⟨hpending, h.owner, h.parent⟩

/-- An event that is about no scope leaves everything as it is. -/
theorem pass (h : Attributed tokens next events pending) {e : Event} (he : e.scopeFirst? = none) :
    Attributed tokens next (events ++ [e]) pending := by
  have hscopes : scopesOf (events ++ [e]) = scopesOf events := by
    rw [scopesOf_append]
    cases e <;> simp_all [recordScope, Event.scopeFirst?]
  refine ⟨h.pending, ?_, ?_⟩
  · rw [hscopes]
    exact h.owner
  · rw [hscopes]
    exact h.parent

/-- A scope that opens has the innermost open scope around it, and lies around no scope before it. -/
theorem opens (h : Attributed tokens next events pending)
    (htracks : Tracks first next events scopes stack) {s : Scope} (hs : s.first = next)
    (hparent : s.parent = stack.head?.bind Scope.owner)
    (howner : ∀ t, s.owner = some t → t ∈ tokens ∧ (t.kind ≠ .openTag → t.index < next)) :
    Attributed tokens next (events ++ [.opened s]) pending := by
  have hscopes : scopesOf (events ++ [.opened s]) = scopes ++ [s] := by
    rw [scopesOf_append, htracks.record]
    rfl
  have howners := h.owner
  have hparents := h.parent
  rw [htracks.record] at howners hparents
  have hbefore : ∀ b : Scope, b.first ≤ next →
      enclosing? (scopes ++ [s]) b = enclosing? scopes b := by
    intro b hb
    have hspans : s.spans b.first = false := by
      have hnot : ¬ s.first < b.first := by omega
      simp [Scope.spans, hnot]
    rw [enclosing?, List.filter_append, List.filter_cons_of_neg (by simp [hspans]), List.filter_nil,
      List.append_nil, enclosing?]
  refine ⟨h.pending, ?_, ?_⟩
  · rw [hscopes, List.forall_mem_append, List.forall_mem_singleton, hs]
    exact ⟨howners, howner⟩
  · rw [hscopes, List.forall_mem_append, List.forall_mem_singleton]
    refine ⟨fun b hb => ?_, ?_⟩
    · rw [hbefore b (Int.le_of_lt (htracks.bounds b hb).2)]
      exact hparents b hb
    · rw [hbefore s (Int.le_of_eq hs), htracks.enclosing?_next hs]
      exact hparent

/-- Scopes may change as long as they keep their owners, parents and starts, and none comes to span the
start of another one or ceases to. -/
theorem relabel (h : Attributed tokens next events pending) {events' : List Event} {f : Scope → Scope}
    (hscopes : scopesOf events' = (scopesOf events).map f)
    (hsame : ∀ a ∈ scopesOf events,
      (f a).owner = a.owner ∧ (f a).parent = a.parent ∧ (f a).first = a.first)
    (hspans : ∀ a ∈ scopesOf events, ∀ b ∈ scopesOf events,
      (f a).spans b.first = a.spans b.first) : Attributed tokens next events' pending := by
  have henclosing : ∀ b ∈ scopesOf events,
      enclosing? ((scopesOf events).map f) (f b) = (enclosing? (scopesOf events) b).map f := by
    intro b hb
    have hfilter : (scopesOf events).filter ((·.spans b.first) ∘ f) =
        (scopesOf events).filter (·.spans b.first) :=
      List.filter_congr fun a ha => hspans a ha b hb
    rw [enclosing?, (hsame b hb).2.2, List.filter_map, hfilter, List.getLast?_map, enclosing?]
  refine ⟨h.pending, ?_, ?_⟩
  · rw [hscopes, List.forall_mem_map]
    intro a ha t ht
    obtain ⟨howner, -, hfirst⟩ := hsame a ha
    rw [hfirst]
    exact h.owner a ha t (by rw [← howner, ht])
  · rw [hscopes, List.forall_mem_map]
    intro b hb
    rw [(hsame b hb).2.1, henclosing b hb, h.parent b hb]
    cases henclosed : enclosing? (scopesOf events) b with
    | none => rfl
    | some a =>
      have ha : a ∈ scopesOf events := (List.mem_filter.mp (List.mem_of_getLast? henclosed)).1
      exact (hsame a ha).1.symm

/-- A scope that closes at the last position passed, or later, still is around the same scopes. -/
theorem closes {s : Scope} {rest : List Scope} (h : Attributed tokens next events pending)
    (htracks : Tracks first next events scopes (s :: rest)) {last : Int}
    (hpassed : next - 1 ≤ last) :
    Attributed tokens next (events ++ [.closed (s.close last)]) pending := by
  obtain ⟨before, after, hsplit, hopen, -, -⟩ := htracks.exists_split
  have hmem : s ∈ scopes := by
    rw [hsplit]
    simp
  have hended : ∀ a ∈ scopes, (a.first = s.first ↔ a = s) := fun a ha =>
    ⟨htracks.eq_of_first ha hmem, congrArg Scope.first⟩
  refine h.relabel (f := fun a => if a.first = s.first then s.close last else a)
    (scopesOf_append events _) ?_ ?_
  · rw [htracks.record]
    intro a ha
    by_cases hs : a.first = s.first
    · rw [if_pos hs, (hended a ha).mp hs]
      exact ⟨rfl, rfl, rfl⟩
    · rw [if_neg hs]
      exact ⟨rfl, rfl, rfl⟩
  · rw [htracks.record]
    intro a ha b hb
    by_cases hs : a.first = s.first
    · have hlt := (htracks.bounds b hb).2
      rw [if_pos hs, (hended a ha).mp hs]
      exact Tracks.spans_close hopen (by omega)
    · rw [if_neg hs]

/-- Passing a token keeps the invariant. -/
theorem step {s : Traversal} {t : Token} (rest : List Token)
    (h : Attributed tokens next events s.pending) (htracks : Tracks first next events scopes s.scopes)
    (ht : t.index = next) (hmem : t ∈ tokens) :
    Attributed tokens (next + 1) (events ++ (s.step t rest).2) (s.step t rest).1.pending := by
  have hwait : ∀ t', (s.process t rest).1.pending = some t' →
      t' ∈ tokens ∧ t'.kind ≠ .openTag ∧ t'.index < next + 1 := by
    intro t' ht'
    rcases s.pending_process t rest with hsame | hnone | ⟨htoken, hkind⟩
    · obtain ⟨hmem', hkind, hlt⟩ := h.pending t' (hsame.symm.trans ht')
      exact ⟨hmem', hkind, by omega⟩
    · cases hnone.symm.trans ht'
    · cases htoken.symm.trans ht'
      exact ⟨hmem, hkind, by omega⟩
  have hpassed : ∀ {es : List Event}, Attributed tokens next (events ++ es) s.pending →
      Attributed tokens (next + 1) (events ++ (es ++ [.passed t (s.step t rest).1.current?]))
        (s.process t rest).1.pending := by
    intro es h'
    rw [← List.append_assoc]
    exact (h'.pass rfl).wait hwait
  rw [Traversal.events_step, Traversal.pending_step]
  have hopened {scope : Scope} (hscope : Event.opened scope ∈ (s.process t rest).2) :=
    Traversal.opened_process hscope
  have hstep := s.process_scopeStep t rest
  revert htracks hstep hpassed hopened
  generalize (s.process t rest).1.scopes = after, (s.process t rest).2 = es, s.scopes = before
  intro htracks hpassed hopened hstep
  cases hstep with
  | keep => exact hpassed (by simpa using h)
  | opens _ scope hfirst =>
    obtain ⟨hparent, howner⟩ := hopened (List.mem_singleton.mpr rfl)
    refine hpassed (h.opens htracks (hfirst.trans ht) hparent fun t' ht' => ?_)
    rcases howner with hpending | ⟨htag, hkind⟩
    · obtain ⟨hmem', -, hlt⟩ := h.pending t' (hpending.symm.trans ht')
      exact ⟨hmem', fun _ => hlt⟩
    · cases htag.symm.trans ht'
      exact ⟨hmem, fun hne => absurd hkind hne⟩
  | closes scope rest' => exact hpassed (h.closes htracks (by omega))
  | closesBefore scope rest' => exact hpassed (h.closes htracks (by omega))
  | unbalanced => exact hpassed (h.pass rfl)

/-- A run over consecutive tokens keeps the invariant. -/
theorem run {ts : List Token} {s : Traversal} (beyond : List Token)
    (h : Attributed tokens next events s.pending) (htracks : Tracks first next events scopes s.scopes)
    (hfirst : first ≤ next) (hnumbered : Numbered next ts) (hmem : ∀ t ∈ ts, t ∈ tokens) :
    Attributed tokens (next + ts.length) (events ++ (Traversal.run beyond s ts).2)
      (Traversal.run beyond s ts).1.pending := by
  induction ts generalizing next events scopes s with
  | nil => simpa using h
  | cons t rest ih =>
    obtain ⟨ht, hrest⟩ := hnumbered
    obtain ⟨hmemT, hmemRest⟩ := List.forall_mem_cons.mp hmem
    obtain ⟨scopes', htracks'⟩ := htracks.step (rest ++ beyond) hfirst ht
    have h' := ih (h.step (rest ++ beyond) htracks ht hmemT) htracks' (by omega) hrest hmemRest
    have hlength : next + 1 + (rest.length : Int) = next + ((rest.length + 1 : Nat) : Int) := by
      omega
    rw [Traversal.run_cons, List.length_cons, ← hlength, ← List.append_assoc]
    exact h'

/-- Closing what is open at the end of a range keeps the invariant. -/
theorem finish (h : Attributed tokens next events pending)
    (htracks : Tracks first next events scopes stack) {stop : Int} (hstop : next ≤ stop) :
    Attributed tokens stop (events ++ stack.map fun s => .closed (s.close (stop - 1))) pending := by
  have hwait : ∀ t, pending = some t → t ∈ tokens ∧ t.kind ≠ .openTag ∧ t.index < stop := by
    intro t ht
    obtain ⟨hmem, hkind, hlt⟩ := h.pending t ht
    exact ⟨hmem, hkind, by omega⟩
  induction stack generalizing next events scopes with
  | nil => simpa using h.wait hwait
  | cons s rest ih =>
    obtain ⟨scopes', htracks'⟩ := htracks.closes (by omega : next - 1 ≤ stop - 1)
      (by omega : stop - 1 < stop) hstop
    have h' := ih ((h.closes htracks (by omega)).wait hwait) htracks' (Int.le_refl stop)
    simpa using h'

end Attributed
end Reflection
