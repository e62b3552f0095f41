import Reflection.Proofs.Scope.Step
import Reflection.Scope.Visitor

/-!
# The scopes of a traversal nest

A whole traversal opens and closes every scope once, its scopes are disjoint or nested, and the level
of a scope counts the scopes around it. This holds of every stream, balanced or not.

## Main definitions

* `scopesOf`: the scopes of a list of events in the order in which they open.
* `WellNested`: what holds of the events of a whole traversal.
* `Tracks`: the invariant of a traversal that is still under way.

## Main statements

* `Tracks.step`, `Tracks.run`: a step keeps the invariant, and so does a run.
* `wellNested_traverse`: the events of a whole traversal are well nested.
-/
namespace Reflection

/-! ## Scopes of a list of events -/

/-- The scopes of a run after one more event: a scope that opens comes last, and a scope that closes
gets its last position. -/
def recordScope (scopes : List Scope) : Event → List Scope
  | .opened s => scopes ++ [s]
  | .closed c => scopes.map fun s => if s.first = c.first then c else s
  | _ => scopes

/-- The scopes of a list of events, in the order in which they open, each as the events leave it. -/
def scopesOf (events : List Event) : List Scope := events.foldl recordScope []

/-- First position of the scope that an event opens or closes. -/
def Event.scopeFirst? : Event → Option Int
  | .opened s | .closed s => some s.first
  | _ => none

/-- The events that open or close the scope at a position. -/
def eventsOfScope (first : Int) (events : List Event) : List Event :=
  events.filter (·.scopeFirst? == some first)

namespace Scope

/-- The scope ends before another one starts. -/
def EndsBefore (a b : Scope) : Prop := ∃ last, a.last = some last ∧ last < b.first

/-- The scope starts before another one and does not end before it. -/
def Encloses (a b : Scope) : Prop :=
  a.first < b.first ∧ ∃ last inner, a.last = some last ∧ b.last = some inner ∧ inner ≤ last

/-- The scope starts before a position and extends to it. -/
def spans (a : Scope) (index : Int) : Bool := a.first < index && a.last.all (index ≤ ·)

/-- The scope while it was open. -/
def reopen (a : Scope) : Scope := { a with last := none }

/-- The events that a scope has gone through. -/
def history (a : Scope) : List Event :=
  .opened a.reopen :: if a.last.isSome then [.closed a] else []

@[simp] theorem first_close (s : Scope) (last : Int) : (s.close last).first = s.first := rfl

@[simp] theorem level_close (s : Scope) (last : Int) : (s.close last).level = s.level := rfl

@[simp] theorem last_close (s : Scope) (last : Int) : (s.close last).last = some last := rfl

end Scope

/-- The events of a traversal of the positions from `first` to below `stop` nest. -/
structure WellNested (first stop : Int) (events : List Event) : Prop where
  /-- A position opens no scope, or one that closes once and later. -/
  paired : ∀ i, eventsOfScope i events = [] ∨
    ∃ s last, eventsOfScope i events = [.opened s, .closed (s.close last)]
  /-- A scope lies within the positions of the traversal. -/
  within : ∀ a ∈ scopesOf events,
    ∃ last, a.last = some last ∧ first ≤ a.first ∧ a.first ≤ last ∧ last ≤ stop - 1
  /-- Of two scopes, the one that opens first ends before the other one starts or encloses it. -/
  nested : (scopesOf events).Pairwise fun a b => a.EndsBefore b ∨ a.Encloses b
  /-- The level of a scope is the number of scopes around its start. -/
  level : ∀ b ∈ scopesOf events, b.level = (scopesOf events).countP (·.spans b.first)

/-! ## The invariant -/

/-- Where a traversal that began at `first` stands before the position `next`: `scopes` are the
scopes of its events so far, and `stack` those of them that are open, the innermost first. -/
structure Tracks (first next : Int) (events : List Event) (scopes stack : List Scope) : Prop where
  record : scopesOf events = scopes
  stack_eq : stack = (scopes.filter (·.last.isNone)).reverse
  sorted : scopes.Pairwise (·.first < ·.first)
  bounds : ∀ a ∈ scopes, first ≤ a.first ∧ a.first < next
  ends : ∀ a ∈ scopes, ∀ last, a.last = some last → a.first ≤ last ∧ last < next
  nested : scopes.Pairwise fun a b =>
    ∀ last, a.last = some last → last < b.first ∨ ∃ inner, b.last = some inner ∧ inner ≤ last
  level : ∀ b ∈ scopes, b.level = scopes.countP (·.spans b.first)
  histories : ∀ i, eventsOfScope i events = (scopes.filter (·.first = i)).flatMap Scope.history

namespace Tracks

variable {first next : Int} {events : List Event} {scopes stack : List Scope}

theorem start (first next : Int) : Tracks first next [] [] [] where
  record := rfl
  stack_eq := rfl
  sorted := .nil
  bounds := by simp
  ends := by simp
  nested := .nil
  level := by simp
  histories := by simp [eventsOfScope]

/-- Passing on to a later position changes nothing. -/
theorem mono (h : Tracks first next events scopes stack) {next' : Int} (hnext : next ≤ next') :
    Tracks first next' events scopes stack :=
  { h with
    bounds := fun a ha => ⟨(h.bounds a ha).1, Int.lt_of_lt_of_le (h.bounds a ha).2 hnext⟩
    ends := fun a ha last hlast =>
      ⟨(h.ends a ha last hlast).1, Int.lt_of_lt_of_le (h.ends a ha last hlast).2 hnext⟩ }

/-- An event that is about no scope leaves everything as it is. -/
theorem pass (h : Tracks first next events scopes stack) {e : Event}
    (he : e.scopeFirst? = none) : Tracks first next (events ++ [e]) scopes stack :=
  { h with
    record := by
      rw [scopesOf, List.foldl_append, ← scopesOf, h.record]
      cases e <;> simp_all [recordScope, Event.scopeFirst?]
    histories := by
      intro i
      have : eventsOfScope i [e] = [] := by simp [eventsOfScope, he]
      rw [eventsOfScope, List.filter_append, ← eventsOfScope, ← eventsOfScope, this,
        h.histories i, List.append_nil] }

/-- A scope that opens at the next position lies in every scope that is open. -/
theorem opens (h : Tracks first next events scopes stack) (hfirst : first ≤ next) {s : Scope}
    (hs : s.first = next) (hlast : s.last = none) (hlevel : s.level = stack.length) :
    Tracks first (next + 1) (events ++ [.opened s]) (scopes ++ [s]) (s :: stack) where
  record := by
    rw [scopesOf, List.foldl_append, ← scopesOf, h.record]
    rfl
  stack_eq := by simp [h.stack_eq, hlast]
  sorted := by
    rw [List.pairwise_append]
    refine ⟨h.sorted, List.pairwise_singleton _ _, fun a ha b hb => ?_⟩
    rw [List.mem_singleton.mp hb, hs]
    exact (h.bounds a ha).2
  bounds := by
    intro a ha
    rcases List.mem_append.mp ha with ha | ha
    · have := h.bounds a ha
      omega
    · rw [List.mem_singleton.mp ha, hs]
      omega
  ends := by
    intro a ha last hl
    rcases List.mem_append.mp ha with ha | ha
    · have := h.ends a ha last hl
      omega
    · rw [List.mem_singleton.mp ha, hlast] at hl
      cases hl
  nested := by
    rw [List.pairwise_append]
    refine ⟨h.nested, List.pairwise_singleton _ _, fun a ha b hb last hl => .inl ?_⟩
    rw [List.mem_singleton.mp hb, hs]
    exact (h.ends a ha last hl).2
  level := by
    -- The new scope spans no position of an old one, and only the open scopes span its own.
    have hself : s.spans s.first = false := by simp [Scope.spans]
    have hold : ∀ a ∈ scopes, a.spans s.first = a.last.isNone := by
      intro a ha
      have hlt := (h.bounds a ha).2
      cases hl : a.last with
      | none => simp [Scope.spans, hl, hs, hlt]
      | some last =>
        have := (h.ends a ha last hl).2
        simp [Scope.spans, hl, hs, this]
    intro b hb
    rw [List.countP_append, List.countP_singleton]
    rcases List.mem_append.mp hb with hb | hb
    · have hafter : s.spans b.first = false := by
        have := (h.bounds b hb).2
        simp [Scope.spans, hs]
        omega
      rw [hafter, h.level b hb]
      rfl
    · have hcount : scopes.countP (·.spans s.first) = scopes.countP (·.last.isNone) :=
        List.countP_congr fun a ha => by rw [hold a ha]
      rw [List.mem_singleton.mp hb, hself, hlevel, h.stack_eq, List.length_reverse, hcount,
        List.countP_eq_length_filter]
      rfl
  histories := by
    intro i
    rw [eventsOfScope, List.filter_append, ← eventsOfScope, ← eventsOfScope, h.histories i,
      List.filter_append, List.flatMap_append]
    by_cases hi : s.first = i
    · have hre : s.reopen = s := by
        cases s
        simp_all [Scope.reopen]
      simp [eventsOfScope, Event.scopeFirst?, Scope.history, hlast, hi, hre]
    · simp [eventsOfScope, Event.scopeFirst?, hi]

/-- The innermost open scope divides the scopes so far: those after it have closed. -/
theorem exists_split {s : Scope} {rest : List Scope} (h : Tracks first next events scopes (s :: rest)) :
    ∃ before after, scopes = before ++ s :: after ∧ s.last = none ∧
      rest = (before.filter (·.last.isNone)).reverse ∧ ∀ b ∈ after, b.last.isSome := by
  have hfilter : scopes.filter (·.last.isNone) = rest.reverse ++ [s] := by
    rw [← List.reverse_reverse (scopes.filter _), ← h.stack_eq, List.reverse_cons]
  obtain ⟨front, back, rfl, hfront, hback⟩ := List.filter_eq_append_iff.mp hfilter
  obtain ⟨closed, after, rfl, hclosed, hs, hafter⟩ := List.filter_eq_cons_iff.mp hback
  refine ⟨front ++ closed, after, by simp, by simpa using hs, ?_, ?_⟩
  · rw [List.filter_append, hfront, List.filter_eq_nil_iff.mpr hclosed, List.append_nil,
      List.reverse_reverse]
  · intro b hb
    have := List.filter_eq_nil_iff.mp hafter b hb
    cases hl : b.last <;> simp_all

/-- Closing a scope changes its entry and no other. -/
theorem recordScope_closed {s : Scope} {before after : List Scope} (last : Int)
    (hbefore : ∀ a ∈ before, a.first ≠ s.first) (hafter : ∀ a ∈ after, a.first ≠ s.first) :
    recordScope (before ++ s :: after) (.closed (s.close last)) =
      before ++ s.close last :: after := by
  have hmap : ∀ xs : List Scope, (∀ a ∈ xs, a.first ≠ s.first) →
      xs.map (fun a => if a.first = (s.close last).first then s.close last else a) = xs := by
    intro xs hxs
    calc
      xs.map (fun a => if a.first = (s.close last).first then s.close last else a) = xs.map id :=
        List.map_congr_left fun a ha => if_neg (hxs a ha)
      _ = xs := List.map_id xs
  rw [recordScope, List.map_append, List.map_cons, hmap before hbefore, hmap after hafter,
    if_pos (Scope.first_close s last).symm]

/-- A scope spans up to the position at which it closes what it spanned when it was open. -/
theorem spans_close {s : Scope} (hopen : s.last = none) {index last : Int} (hindex : index ≤ last) :
    (s.close last).spans index = s.spans index := by
  have hle : decide (index ≤ last) = true := decide_eq_true hindex
  show (decide (s.first < index) && decide (index ≤ last)) = s.spans index
  rw [Scope.spans, hopen, hle]
  rfl

/-- A scope that closes behind a position spans it as before, so it is in as many scopes as before. -/
theorem countP_spans_close {s : Scope} (hopen : s.last = none) (before after : List Scope)
    {index last : Int} (hindex : index ≤ last) :
    (before ++ s.close last :: after).countP (·.spans index) =
      (before ++ s :: after).countP (·.spans index) := by
  simp only [List.countP_append, List.countP_cons, spans_close hopen hindex]

/-- Closing a scope adds one event to its history and none to another one. -/
theorem history_closed {s : Scope} (hopen : s.last = none) {before after : List Scope} (last : Int)
    (hbefore : ∀ a ∈ before, a.first ≠ s.first) (hafter : ∀ a ∈ after, a.first ≠ s.first) (i : Int) :
    ((before ++ s.close last :: after).filter (·.first = i)).flatMap Scope.history =
      ((before ++ s :: after).filter (·.first = i)).flatMap Scope.history ++
        eventsOfScope i [.closed (s.close last)] := by
  by_cases hi : s.first = i
  · subst hi
    have hnone : ∀ xs : List Scope, (∀ a ∈ xs, a.first ≠ s.first) →
        xs.filter (·.first = s.first) = [] := fun xs hxs =>
      List.filter_eq_nil_iff.mpr fun a ha => by simpa using hxs a ha
    have hreopen : (s.close last).reopen = s.reopen := rfl
    simp [List.filter_append, hnone before hbefore, hnone after hafter,
      Scope.history, hopen, hreopen, eventsOfScope, Event.scopeFirst?]
  · have hnone : eventsOfScope i [.closed (s.close last)] = [] := by
      simp [eventsOfScope, Event.scopeFirst?, hi]
    rw [hnone, List.append_nil, List.filter_append, List.filter_append,
      List.filter_cons_of_neg (a := s) (by simp [hi]),
      List.filter_cons_of_neg (a := s.close last) (by simp [hi])]

/-- The innermost open scope may close at any position from the last one passed on. -/
theorem closes {s : Scope} {rest : List Scope} (h : Tracks first next events scopes (s :: rest))
    {last next' : Int} (hpassed : next - 1 ≤ last) (hlast : last < next') (hnext : next ≤ next') :
    ∃ scopes', Tracks first next' (events ++ [.closed (s.close last)]) scopes' rest := by
  obtain ⟨before, after, rfl, hopen, hrest, hafter⟩ := h.exists_split
  have hsorted := h.sorted
  have hnested := h.nested
  have hbounds := h.bounds
  have hends := h.ends
  simp only [List.pairwise_append, List.pairwise_cons, List.forall_mem_cons] at hsorted hnested
  simp only [List.forall_mem_append, List.forall_mem_cons] at hbounds hends
  obtain ⟨hsorted₁, ⟨hsorted₂, hsorted₃⟩, hsorted₄⟩ := hsorted
  obtain ⟨hnested₁, ⟨hnested₂, hnested₃⟩, hnested₄⟩ := hnested
  obtain ⟨hbounds₁, hbounds₂, hbounds₃⟩ := hbounds
  obtain ⟨hends₁, -, hends₃⟩ := hends
  have hbefore : ∀ a ∈ before, a.first ≠ s.first := fun a ha =>
    Int.ne_of_lt (hsorted₄ a ha).1
  have hafter' : ∀ a ∈ after, a.first ≠ s.first := fun a ha =>
    Int.ne_of_gt (hsorted₂ a ha)
  exact ⟨before ++ s.close last :: after, {
    record := by
      rw [scopesOf, List.foldl_append, ← scopesOf, h.record]
      exact recordScope_closed last hbefore hafter'
    stack_eq := by
      have hclosed : after.filter (·.last.isNone) = [] :=
        List.filter_eq_nil_iff.mpr fun b hb => by
          have := hafter b hb
          cases hl : b.last <;> simp_all
      rw [List.filter_append, List.filter_cons_of_neg (by simp), hclosed, List.append_nil, hrest]
    sorted := by
      simp only [List.pairwise_append, List.pairwise_cons, List.forall_mem_cons, Scope.first_close]
      exact ⟨hsorted₁, ⟨hsorted₂, hsorted₃⟩, hsorted₄⟩
    bounds := by
      simp only [List.forall_mem_append, List.forall_mem_cons, Scope.first_close]
      exact ⟨fun a ha => ⟨(hbounds₁ a ha).1, by have := (hbounds₁ a ha).2; omega⟩,
        ⟨hbounds₂.1, by omega⟩,
        fun a ha => ⟨(hbounds₃ a ha).1, by have := (hbounds₃ a ha).2; omega⟩⟩
    ends := by
      simp only [List.forall_mem_append, List.forall_mem_cons, Scope.first_close, Scope.last_close,
        Option.some.injEq]
      refine ⟨fun a ha m hm => ?_, fun m hm => ?_, fun a ha m hm => ?_⟩
      · have := hends₁ a ha m hm
        omega
      · omega
      · have := hends₃ a ha m hm
        omega
    nested := by
      simp only [List.pairwise_append, List.pairwise_cons, List.forall_mem_cons, Scope.first_close,
        Scope.last_close, Option.some.injEq]
      refine ⟨hnested₁, ⟨fun b hb m hm => ?_, hnested₃⟩, fun a ha => ⟨fun m hm => ?_, (hnested₄ a ha).2⟩⟩
      · -- What opened after the closing scope has closed by now.
        obtain ⟨inner, hinner⟩ := Option.isSome_iff_exists.mp (hafter b hb)
        have := hends₃ b hb inner hinner
        exact .inr ⟨inner, hinner, by omega⟩
      · rcases (hnested₄ a ha).1 m hm with hlt | ⟨inner, hinner, -⟩
        · exact .inl hlt
        · rw [hopen] at hinner
          cases hinner
    level := by
      -- No scope seen so far starts after `last`, so closing there changes no level.
      have hlevel : ∀ b ∈ before ++ s :: after,
          b.level = (before ++ s.close last :: after).countP (·.spans b.first) := by
        intro b hb
        have hlt := (h.bounds b hb).2
        rw [countP_spans_close hopen before after (by omega)]
        exact h.level b hb
      simp only [List.forall_mem_append, List.forall_mem_cons] at hlevel ⊢
      exact hlevel
    histories := by
      intro i
      rw [eventsOfScope, List.filter_append, ← eventsOfScope, ← eventsOfScope, h.histories i]
      exact (history_closed hopen last hbefore hafter' i).symm }⟩

/-- Passing a token keeps the invariant. -/
theorem step {s : Traversal} {t : Token} (rest : List Token)
    (h : Tracks first next events scopes s.scopes) (hfirst : first ≤ next) (ht : t.index = next) :
    ∃ scopes', Tracks first (next + 1) (events ++ (s.step t rest).2) scopes'
      (s.step t rest).1.scopes := by
  have hnext : next ≤ next + 1 := Int.le_add_one (Int.le_refl next)
  have hpassed : ∀ {es scopes' stack'}, Tracks first (next + 1) (events ++ es) scopes' stack' →
      Tracks first (next + 1) (events ++ (es ++ [.passed t (s.step t rest).1.current?])) scopes'
        stack' := by
    intro es scopes' stack' h'
    rw [← List.append_assoc]
    exact h'.pass rfl
  rw [Traversal.events_step, Traversal.scopes_step]
  have hstep := s.process_scopeStep t rest
  revert h hstep
  generalize (s.process t rest).1.scopes = after, (s.process t rest).2 = es, s.scopes = before
  intro h hstep
  cases hstep with
  | keep => exact ⟨scopes, by simpa using (h.mono hnext).pass rfl⟩
  | opens _ s hs hlast hlevel =>
    exact ⟨_, hpassed (h.opens hfirst (hs.trans ht) hlast hlevel)⟩
  | closes s rest' =>
    obtain ⟨scopes', h'⟩ := h.closes (by omega : next - 1 ≤ t.index)
      (by omega : t.index < next + 1) hnext
    exact ⟨scopes', hpassed h'⟩
  | closesBefore s rest' hbraceless =>
    obtain ⟨scopes', h'⟩ := h.closes (by omega : next - 1 ≤ t.index - 1)
      (by omega : t.index - 1 < next + 1) hnext
    exact ⟨scopes', hpassed h'⟩
  | unbalanced => exact ⟨scopes, hpassed ((h.mono hnext).pass rfl)⟩

/-- A run over consecutive tokens keeps the invariant. -/
theorem run {tokens : List Token} {s : Traversal} (beyond : List Token)
    (h : Tracks first next events scopes s.scopes) (hfirst : first ≤ next)
    (hnumbered : Numbered next tokens) :
    ∃ scopes', Tracks first (next + tokens.length)
      (events ++ (Traversal.run beyond s tokens).2) scopes'
      (Traversal.run beyond s tokens).1.scopes := by
  induction tokens generalizing next events scopes s with
  | nil => exact ⟨scopes, by simpa using h⟩
  | cons t rest ih =>
    obtain ⟨ht, hrest⟩ := hnumbered
    obtain ⟨scopes', h'⟩ := h.step (rest ++ beyond) hfirst ht
    obtain ⟨scopes'', h''⟩ := ih h' (by omega) hrest
    refine ⟨scopes'', ?_⟩
    have hlength : next + 1 + (rest.length : Int) = next + ((rest.length + 1 : Nat) : Int) := by
      omega
    rw [Traversal.run_cons, List.length_cons, ← hlength, ← List.append_assoc]
    exact h''

/-- The scopes that are open at the end of a range close at its last position, the innermost
first. -/
theorem finish (h : Tracks first next events scopes stack) {stop : Int} (hstop : next ≤ stop) :
    ∃ scopes', Tracks first stop
      (events ++ stack.map fun s => .closed (s.close (stop - 1))) scopes' [] := by
  induction stack generalizing next events scopes with
  | nil => exact ⟨scopes, by simpa using h.mono hstop⟩
  | cons s rest ih =>
    obtain ⟨scopes', h'⟩ := h.closes (by omega : next - 1 ≤ stop - 1) (by omega : stop - 1 < stop)
      hstop
    obtain ⟨scopes'', h''⟩ := ih h' (Int.le_refl stop)
    exact ⟨scopes'', by simpa using h''⟩

/-- Positions increase along the scopes, so at most one scope starts at a position. -/
theorem filter_first (h : Tracks first next events scopes stack) (i : Int) :
    scopes.filter (·.first = i) = [] ∨ ∃ a ∈ scopes, scopes.filter (·.first = i) = [a] := by
  have hsorted := h.sorted.filter (·.first = i)
  have hmem : ∀ a ∈ scopes.filter (·.first = i), a ∈ scopes ∧ a.first = i := fun a ha => by
    simpa using List.mem_filter.mp ha
  revert hsorted hmem
  generalize scopes.filter (·.first = i) = found
  intro hsorted hmem
  match found with
  | [] => exact .inl rfl
  | [a] => exact .inr ⟨a, (hmem a List.mem_cons_self).1, rfl⟩
  | a :: b :: _ =>
    have hlt := List.rel_of_pairwise_cons hsorted List.mem_cons_self
    have ha := (hmem a List.mem_cons_self).2
    have hb := (hmem b (List.mem_cons_of_mem a List.mem_cons_self)).2
    omega

/-- Where no scope is open any more, the events nest. -/
theorem wellNested (h : Tracks first next events scopes []) : WellNested first next events := by
  have hclosed : ∀ a ∈ scopes, ∃ last, a.last = some last := by
    intro a ha
    have hnil := List.filter_eq_nil_iff.mp (List.reverse_eq_nil_iff.mp h.stack_eq.symm) a ha
    cases hl : a.last with
    | none => simp [hl] at hnil
    | some last => exact ⟨last, rfl⟩
  refine ⟨fun i => ?_, ?_, ?_, ?_⟩
  · rw [h.histories i]
    rcases h.filter_first i with hnil | ⟨a, ha, hone⟩
    · exact .inl (by rw [hnil, List.flatMap_nil])
    · obtain ⟨last, hl⟩ := hclosed a ha
      have hclose : a.reopen.close last = a := by
        cases a
        simp_all [Scope.reopen, Scope.close]
      refine .inr ⟨a.reopen, last, ?_⟩
      rw [hone, List.flatMap_singleton, Scope.history, hl, hclose]
      rfl
  · rw [h.record]
    intro a ha
    obtain ⟨last, hl⟩ := hclosed a ha
    have hbounds := h.bounds a ha
    have hends := h.ends a ha last hl
    exact ⟨last, hl, hbounds.1, hends.1, by omega⟩
  · rw [h.record]
    refine (h.nested.and h.sorted).imp_of_mem fun {a b} ha hb hab => ?_
    obtain ⟨hnested, hlt⟩ := hab
    obtain ⟨last, hl⟩ := hclosed a ha
    rcases hnested last hl with hbefore | ⟨inner, hinner, hle⟩
    · exact .inl ⟨last, hl, hbefore⟩
    · exact .inr ⟨hlt, last, inner, hl, hinner, hle⟩
  · rw [h.record]
    exact h.level

end Tracks

/-! ## Whole traversals -/

/-- A raw token that can be read. -/
def RawToken.Readable (raw : RawToken) : Prop := ∀ index, ∃ t, Token.ofRaw raw index = .ok t

theorem Token.index_ofRaw {raw : RawToken} {index : Int} {t : Token}
    (h : Token.ofRaw raw index = .ok t) : t.index = index := by
  unfold Token.ofRaw at h
  split at h
  · cases h
    rfl
  · cases h
    rfl
  · split at h <;> cases h
    rfl
  · cases h

theorem readTokens_of_readable (raws : List RawToken) (index : Int)
    (h : ∀ raw ∈ raws, raw.Readable) :
    (readTokens index raws).2 = none ∧ Numbered index (readTokens index raws).1 ∧
      (readTokens index raws).1.length = raws.length := by
  induction raws generalizing index with
  | nil => exact ⟨rfl, trivial, rfl⟩
  | cons raw rest ih =>
    obtain ⟨hraw, hrest⟩ := List.forall_mem_cons.mp h
    obtain ⟨t, ht⟩ := hraw index
    obtain ⟨hfault, hnumbered, hlength⟩ := ih (index + 1) hrest
    simp only [readTokens, ht, numbered_cons, List.length_cons, hlength]
    exact ⟨hfault, ⟨Token.index_ofRaw ht, hnumbered⟩, trivial⟩

/-- A traversal of a range whose tokens can be read passes all of them and closes what is open. -/
theorem Visitor.traverse_of_readable (v : Visitor)
    (hreadable : ∀ raw ∈ v.range.slice v.tokens, raw.Readable) :
    v.traverse =
      ({ v with scopes := [] },
        { events :=
            (Traversal.run [] {} (readTokens v.range.first (v.range.slice v.tokens)).1).2 ++
              (Traversal.run [] {} (readTokens v.range.first (v.range.slice v.tokens)).1).1.finish
                (v.range.stop - 1) }) := by
  have hfault := (readTokens_of_readable _ v.range.first hreadable).1
  simp only [Visitor.traverse, Visitor.visit, hfault, Option.isSome_none, Bool.false_eq_true,
    if_false, Option.any_none, List.drop_length]

/-- Every stream that can be read, in every range and whatever its brackets: a whole traversal opens
each scope once and later closes it once, leaves none open, and its scopes are disjoint or nested,
brace-less namespaces included. -/
theorem wellNested_traverse (v : Visitor)
    (hreadable : ∀ raw ∈ v.range.slice v.tokens, raw.Readable) :
    v.traverse.2.fault = none ∧ v.traverse.1.scopes = [] ∧
      WellNested v.range.first v.range.stop v.traverse.2.events := by
  obtain ⟨-, hnumbered, hlength⟩ := readTokens_of_readable _ v.range.first hreadable
  rw [v.traverse_of_readable hreadable]
  refine ⟨rfl, rfl, ?_⟩
  revert hnumbered hlength
  generalize (readTokens v.range.first (v.range.slice v.tokens)).1 = tokens
  intro hnumbered hlength
  simp only [TokenRange.slice, List.length_drop, List.length_take] at hlength
  by_cases hrange : v.range.first ≤ v.range.stop
  · obtain ⟨scopes, h⟩ := (Tracks.start v.range.first _).run (s := {}) [] (Int.le_refl _) hnumbered
    obtain ⟨scopes', h'⟩ := h.finish (by omega : (v.range.first : Int) + tokens.length ≤ v.range.stop)
    exact h'.wellNested
  · -- The range is empty: nothing is passed.
    have hnil : tokens = [] := List.eq_nil_of_length_eq_zero (by omega)
    subst hnil
    exact (Tracks.start v.range.first v.range.stop).wellNested

/-- A brace-less namespace that starts inside of a block, and more closing braces than opening
ones. -/
theorem wellNested_traverse_unbalanced :
    let v : Visitor := .ofTokens [.entry "T_OPEN_TAG" "<?php" 1, .bare "\x7b",
      .entry "T_NAMESPACE" "namespace" 2, .entry "T_STRING" "A" 2, .bare ";", .bare "\x7d",
      .bare "\x7d", .bare "\x7d", .bare "\x7d"]
    (∀ raw ∈ v.range.slice v.tokens, raw.Readable) ∧
      v.traverse.2.fault = none ∧ v.traverse.1.scopes = [] ∧
        WellNested v.range.first v.range.stop v.traverse.2.events := by
  intro v
  have h : ∀ raw ∈ v.range.slice v.tokens, raw.Readable := by
    simp only [v, Visitor.ofTokens, TokenRange.slice, List.length_cons, List.length_nil,
      List.take_succ_cons, List.take_nil, List.drop_zero, List.forall_mem_cons]
    refine ⟨?_, ?_, ?_, ?_, ?_, ?_, ?_, ?_, ?_, List.forall_mem_nil _⟩ <;>
      exact fun i => ⟨_, rfl⟩
  exact ⟨h, wellNested_traverse v h⟩

end Reflection
