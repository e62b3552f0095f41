import Reflection.Proofs.Scope.Ownership
import Reflection.Proofs.Scope.Shift
import Reflection.Proofs.Token

/-!
# The keywords that own scopes

One declaration keyword waits for its block at a time. A token leaves it, takes its place, drops it, or
opens the scope that it owns, and what the keyword stood next to when it began to wait decides whether
it may own one. So a keyword owns at most one scope, the next one that opens after it, on every stream
and in every range, whether the traversal is whole or abandoned.

## Main definitions

* `KeywordStep`: what a token does to the keyword that waits.
* `Declares`: a keyword stands where it may own a scope.
* `Owned`: who owns the scopes of a traversal.

## Main statements

* `Traversal.process_keywordStep`: processing a token is a keyword step.
* `Waits.step`, `Waits.run`: a step keeps the invariant, and so does a run.
* `owned_visit`: the scopes of every traversal are owned.
-/
namespace Reflection

open Token

/-! ## One step -/

/-- A keyword between some tokens, with the innermost scope that is open there, may own a scope:
`namespace` is not the operator of relative names, `class` follows no double colon, and `function`
stands directly in the scope of a file, of a namespace, or of a structure other than an interface. -/
def Declares (before : List Token) (d : Token) (after : List Token) (scope : Option Scope) : Prop :=
  match d.kind with
  | .namespaceKeyword => (after.find? (!·.isIgnorable)).any (·.kind == .separator) = false
  | .classKeyword => (previousSignificant? before.reverse).any (·.kind == .doubleColon) = false
  | .functionKeyword => (scope.bind Scope.ownerKind?).any Traversal.ownsFunctions = true
  | .interfaceKeyword | .traitKeyword => True
  | _ => False

/-- A scope begins at a token: that of a namespace statement at its semicolon, that of a file at its
open tag, and any other one at a brace. -/
def BeginsAt (t : Token) (s : Scope) : Prop :=
  (s.braceless = true ∧ t.isPunct ";" = true ∧ s.ownerKind? = some .namespaceKeyword) ∨
    (s.braceless = false ∧ (t.isPunct "\x7b" = true ∨ (t.kind = .openTag ∧ s.owner = some t)))

/-- What a token after `before` does to the keyword that waits in a state, with the events that report
it. -/
inductive KeywordStep (before : List Token) (t : Token) (after : List Token) (s : Traversal) :
    Traversal → List Event → Prop
  | keep {s' : Traversal} {events : List Event} (hpending : s'.pending = s.pending)
      (hopened : ∀ scope, .opened scope ∉ events) : KeywordStep before t after s s' events
  | drop {s' : Traversal} {events : List Event} (hpending : s'.pending = none)
      (hopened : ∀ scope, .opened scope ∉ events) : KeywordStep before t after s s' events
  | wait {s' : Traversal} {events : List Event} (hpending : s'.pending = some t)
      (hopened : ∀ scope, .opened scope ∉ events)
      (hdeclares : Declares before t after s'.current?) : KeywordStep before t after s s' events
  | opens {s' : Traversal} (scope : Scope) (hpending : s'.pending = none)
      (hfirst : scope.first = t.index) (hbegins : BeginsAt t scope)
      (howner : scope.owner = s.pending ∨ (scope.owner = some t ∧ t.kind = .openTag)) :
      KeywordStep before t after s s' [.opened scope]

namespace Traversal

variable {before after : List Token} {t : Token} {s : Traversal}

/-- A semicolon opens the scope of a namespace that waits, and drops a function that does. -/
theorem terminate_keywordStep (ht : t.isPunct ";" = true) :
    KeywordStep before t after s (s.terminate t.index).1 (s.terminate t.index).2 := by
  unfold terminate
  split
  · rename_i hnamespace
    exact .opens _ rfl rfl (.inl ⟨rfl, ht, hnamespace⟩) (.inl rfl)
  · exact .drop rfl fun _ => List.not_mem_nil
  · exact .keep rfl fun _ => List.not_mem_nil

/-- Whatever a token is, it leaves the keyword that waits, takes its place, drops it, or opens a scope,
which belongs to that keyword or is that of a file. -/
theorem process_keywordStep
    (hprevious : s.previous = (previousSignificant? before.reverse).map Token.kind) :
    KeywordStep before t after s (s.process t after).1 (s.process t after).2 := by
  unfold process
  split
  · rename_i hkind
    split
    · exact .opens _ rfl rfl (.inr ⟨rfl, .inr ⟨hkind, rfl⟩⟩) (.inr ⟨rfl, hkind⟩)
    · exact .keep rfl fun _ => List.not_mem_nil
  · rename_i hkind
    split
    · exact .keep rfl fun _ => List.not_mem_nil
    · rename_i hrelative
      refine .wait rfl (fun scope => not_opened_closeBraceless) ?_
      simp only [Declares, hkind]
      exact Bool.eq_false_iff.mpr hrelative
  · rename_i hkind
    exact .wait rfl (fun _ => List.not_mem_nil) (by simp only [Declares, hkind])
  · rename_i hkind
    exact .wait rfl (fun _ => List.not_mem_nil) (by simp only [Declares, hkind])
  · rename_i hkind
    split
    · exact .keep rfl fun _ => List.not_mem_nil
    · rename_i hcolon
      refine .wait rfl (fun _ => List.not_mem_nil) ?_
      simp only [Declares, hkind]
      rw [hprevious] at hcolon
      cases hlast : previousSignificant? before.reverse with
      | none => rfl
      | some u => simpa [hlast] using hcolon
  · rename_i hkind
    split
    · rename_i howns
      refine .wait rfl (fun _ => List.not_mem_nil) ?_
      simp only [Declares, hkind]
      exact howns
    · exact .keep rfl fun _ => List.not_mem_nil
  · rename_i hkind
    have hpunct {text : String} (htext : t.text = text) : t.isPunct text = true := by
      simp [isPunct, hkind, htext]
    split
    · rename_i htext
      exact terminate_keywordStep (hpunct htext)
    · split
      · rename_i htext
        exact .opens _ rfl rfl (.inr ⟨rfl, .inl (hpunct htext)⟩) (.inl rfl)
      · split
        · exact .keep (pending_closeScope s t.index) fun scope => not_opened_closeScope
        · exact .keep rfl fun _ => List.not_mem_nil
  · exact .keep rfl fun _ => List.not_mem_nil

/-- The state keeps the kind of the last significant token. -/
theorem previous_step (hprevious : s.previous = (previousSignificant? before.reverse).map Token.kind) :
    (s.step t after).1.previous =
      (previousSignificant? (before ++ [t]).reverse).map Token.kind := by
  have hsame : (s.process t after).1.previous = s.previous := by
    unfold process closeBraceless closeScope terminate openScope
    dsimp only
    repeat' split
    all_goals rfl
  have hlast : previousSignificant? (before ++ [t]).reverse =
      if t.isIgnorable then previousSignificant? before.reverse else some t := by
    rw [List.reverse_append, List.reverse_singleton, List.singleton_append, previousSignificant?,
      List.find?_cons]
    cases t.isIgnorable <;> rfl
  rw [hlast]
  unfold step
  dsimp only
  split
  · rw [hsame, hprevious]
  · rfl

end Traversal

/-! ## The invariant -/

/-- The scopes that open in a list of events, in order, as they are then. -/
def openedScopes (events : List Event) : List Scope :=
  events.filterMap fun
    | .opened scope => some scope
    | _ => none

theorem openedScopes_append (xs ys : List Event) :
    openedScopes (xs ++ ys) = openedScopes xs ++ openedScopes ys :=
  List.filterMap_append

theorem openedScopes_eq_nil {events : List Event} (h : ∀ scope, .opened scope ∉ events) :
    openedScopes events = [] := by
  refine List.filterMap_eq_nil_iff.mpr fun e he => ?_
  cases e with
  | opened scope => exact absurd he (h scope)
  | _ => rfl

/-- A keyword of a stream was passed where it may own a scope. -/
def Awaits (tokens : List Token) (events : List Event) (d : Token) : Prop :=
  ∃ before after scope, tokens = before ++ d :: after ∧ .passed d scope ∈ events ∧
    Declares before d after scope

theorem Awaits.mono {tokens : List Token} {events : List Event} {d : Token}
    (h : Awaits tokens events d) (later : List Event) : Awaits tokens (events ++ later) d := by
  obtain ⟨before, after, scope, htokens, hpassed, hdeclares⟩ := h
  exact ⟨before, after, scope, htokens, List.mem_append_left _ hpassed, hdeclares⟩

/-- Where a traversal of some tokens stands before the position `next`, `pre` being passed: the keyword
that waits was passed after every scope opened, and a scope that opened since its keyword was passed is
not older than the scope that the keyword owns. -/
structure Waits (tokens pre : List Token) (next : Int) (events : List Event) (s : Traversal) :
    Prop where
  previous : s.previous = (previousSignificant? pre.reverse).map Token.kind
  bound : ∀ a ∈ openedScopes events, a.first < next
  pending : ∀ d, s.pending = some d → Awaits tokens events d ∧ d.index < next ∧
    ∀ a ∈ openedScopes events, a.first < d.index
  begins : ∀ a ∈ openedScopes events, ∃ t ∈ tokens, t.index = a.first ∧ BeginsAt t a
  owner : ∀ a ∈ openedScopes events, ∀ d, a.owner = some d →
    (d.kind = .openTag ∧ d.index = a.first) ∨ (Awaits tokens events d ∧ d.index < a.first ∧
      ∀ b ∈ openedScopes events, b.first < d.index ∨ a.first ≤ b.first)

namespace Waits

variable {tokens pre rest : List Token} {first next : Int} {events : List Event} {s : Traversal}
  {t : Token}

theorem start (tokens : List Token) (next : Int) : Waits tokens [] next [] {} where
  previous := rfl
  bound _ ha := absurd ha List.not_mem_nil
  pending _ hd := nomatch hd
  begins _ ha := absurd ha List.not_mem_nil
  owner _ ha := absurd ha List.not_mem_nil

/-- Events that open nothing leave what is known of the scopes. -/
theorem owner_mono (h : Waits tokens pre next events s) {later : List Event}
    (hlater : ∀ scope, .opened scope ∉ later) : ∀ a ∈ openedScopes (events ++ later), ∀ d,
      a.owner = some d → (d.kind = .openTag ∧ d.index = a.first) ∨
        (Awaits tokens (events ++ later) d ∧ d.index < a.first ∧
          ∀ b ∈ openedScopes (events ++ later), b.first < d.index ∨ a.first ≤ b.first) := by
  rw [openedScopes_append, openedScopes_eq_nil hlater, List.append_nil]
  intro a ha d hd
  exact (h.owner a ha d hd).imp_right fun ⟨hawaits, hrest⟩ => ⟨hawaits.mono later, hrest⟩

/-- A token that opens nothing leaves what is known of the scopes: what is left to show is about the
keyword that waits then. -/
theorem quiet_step (h : Waits tokens pre next events s)
    (hnone : ∀ scope, .opened scope ∉ (s.process t rest).2)
    (hwaits : ∀ d, (s.process t rest).1.pending = some d →
      Awaits tokens (events ++ (s.step t rest).2) d ∧ d.index < next + 1 ∧
        ∀ a ∈ openedScopes events, a.first < d.index) :
    Waits tokens (pre ++ [t]) (next + 1) (events ++ (s.step t rest).2) (s.step t rest).1 := by
  have hnothing : ∀ scope, .opened scope ∉ (s.step t rest).2 := by
    intro scope hscope
    rw [Traversal.events_step, List.mem_append, List.mem_singleton] at hscope
    rcases hscope with hscope | hscope
    · exact hnone scope hscope
    · cases hscope
  have hscopes : openedScopes (events ++ (s.step t rest).2) = openedScopes events := by
    rw [openedScopes_append, openedScopes_eq_nil hnothing, List.append_nil]
  refine ⟨Traversal.previous_step h.previous, fun a ha => ?_, ?_, ?_, h.owner_mono hnothing⟩
  · have := h.bound a (hscopes ▸ ha)
    omega
  · rw [Traversal.pending_step, hscopes]
    exact hwaits
  · rw [hscopes]
    exact h.begins

/-- A scope that opens belongs to the keyword that waits, which no scope has opened since, or is that of
a file. -/
theorem opens_step (h : Waits tokens pre next events s) (ht : t ∈ tokens) (hindex : t.index = next)
    {scope : Scope} (hopened : (s.process t rest).2 = [.opened scope])
    (hnone : (s.process t rest).1.pending = none) (hfirst : scope.first = t.index)
    (hbegins : BeginsAt t scope)
    (howner : scope.owner = s.pending ∨ (scope.owner = some t ∧ t.kind = .openTag)) :
    Waits tokens (pre ++ [t]) (next + 1) (events ++ (s.step t rest).2) (s.step t rest).1 := by
  have hscopes : openedScopes (events ++ (s.step t rest).2) = openedScopes events ++ [scope] := by
    rw [openedScopes_append, Traversal.events_step, hopened]
    rfl
  refine ⟨Traversal.previous_step h.previous, ?_, ?_, ?_, ?_⟩
  · rw [hscopes, List.forall_mem_append, List.forall_mem_singleton]
    exact ⟨fun a ha => by have := h.bound a ha; omega, by omega⟩
  · rw [Traversal.pending_step]
    intro d hd
    cases hnone.symm.trans hd
  · rw [hscopes, List.forall_mem_append, List.forall_mem_singleton]
    exact ⟨h.begins, t, ht, hfirst.symm, hbegins⟩
  · simp only [hscopes, List.forall_mem_append, List.forall_mem_singleton]
    refine ⟨fun a ha d hd => ?_, fun d hd => ?_⟩
    · refine (h.owner a ha d hd).imp_right fun howned => ?_
      obtain ⟨hawaits, hlt, hothers⟩ := howned
      have := h.bound a ha
      exact ⟨hawaits.mono _, hlt, hothers, .inr (by omega)⟩
    · rcases howner with hkeyword | ⟨htag, hkind⟩
      · obtain ⟨hawaits, hlt, hafter⟩ := h.pending d (hkeyword.symm.trans hd)
        exact .inr ⟨hawaits.mono _, by omega, fun b hb => .inl (hafter b hb), .inr (Int.le_refl _)⟩
      · cases htag.symm.trans hd
        exact .inl ⟨hkind, hfirst.symm⟩

/-- Passing a token keeps the invariant. -/
theorem step (h : Waits tokens pre next events s) (htokens : tokens = pre ++ t :: rest)
    (ht : t.index = next) :
    Waits tokens (pre ++ [t]) (next + 1) (events ++ (s.step t rest).2) (s.step t rest).1 := by
  have hkeyword : KeywordStep pre t rest s (s.process t rest).1 (s.process t rest).2 :=
    Traversal.process_keywordStep h.previous
  have hpassed : Event.passed t (s.process t rest).1.current? ∈ (s.step t rest).2 := by
    rw [Traversal.events_step, Traversal.current?, Traversal.scopes_step]
    exact List.mem_append_right _ (List.mem_singleton_self _)
  revert hkeyword
  generalize hevents : (s.process t rest).2 = es
  intro hkeyword
  cases hkeyword with
  | keep hkept hnone =>
    refine h.quiet_step (hevents ▸ hnone) fun d hd => ?_
    obtain ⟨hawaits, hlt, hafter⟩ := h.pending d (hkept.symm.trans hd)
    exact ⟨hawaits.mono _, by omega, hafter⟩
  | drop hdropped hnone =>
    refine h.quiet_step (hevents ▸ hnone) fun d hd => ?_
    cases hdropped.symm.trans hd
  | wait htaken hnone hdeclares =>
    refine h.quiet_step (hevents ▸ hnone) fun d hd => ?_
    cases htaken.symm.trans hd
    refine ⟨⟨pre, rest, _, htokens, List.mem_append_right _ hpassed, hdeclares⟩, by omega, ?_⟩
    rw [ht]
    exact h.bound
  | opens scope hnone hfirst hbegins howner =>
    have hmem : t ∈ tokens := by
      rw [htokens]
      exact List.mem_append_right _ (List.mem_cons_self ..)
    exact h.opens_step hmem ht hevents hnone hfirst hbegins howner

/-- A run over consecutive tokens keeps the invariant. -/
theorem run {ts : List Token} (beyond : List Token) (h : Waits tokens pre next events s)
    (htokens : tokens = pre ++ (ts ++ beyond)) (hnumbered : Numbered next ts) :
    Waits tokens (pre ++ ts) (next + ts.length) (events ++ (Traversal.run beyond s ts).2)
      (Traversal.run beyond s ts).1 := by
  induction ts generalizing pre next events s with
  | nil => simpa using h
  | cons t rest ih =>
    obtain ⟨ht, hrest⟩ := hnumbered
    have h' := ih (h.step htokens ht) (by rw [htokens]; simp) hrest
    have hlength : next + 1 + (rest.length : Int) = next + ((rest.length + 1 : Nat) : Int) := by
      omega
    rw [Traversal.run_cons, List.length_cons, ← hlength, ← List.append_assoc]
    simpa using h'

end Waits

/-! ## Whole and abandoned traversals -/

/-- Who owns the scopes of a traversal of some tokens. -/
structure Owned (tokens : List Token) (events : List Event) : Prop where
  /-- A token owns at most one scope. -/
  distinct : (scopesOf events).Pairwise fun a b => ∀ d, a.owner = some d → b.owner ≠ some d
  /-- The parent of a scope is the owner of the innermost scope around its start. -/
  parent : ∀ s ∈ scopesOf events, s.parent = (enclosing? (scopesOf events) s).bind Scope.owner
  /-- No scope opens between a keyword and its scope, and the scope around that one opened before the
  keyword. -/
  next : ∀ s ∈ scopesOf events, ∀ d, s.owner = some d → d.kind ≠ .openTag →
    d.index < s.first ∧ (∀ a ∈ scopesOf events, ¬ (d.index < a.first ∧ a.first < s.first)) ∧
      ∀ p, enclosing? (scopesOf events) s = some p → p.first < d.index
  /-- A keyword that owns a scope was passed where it may own one. -/
  declares : ∀ s ∈ scopesOf events, ∀ d, s.owner = some d → d.kind ≠ .openTag →
    ∃ before after scope, tokens = before ++ d :: after ∧ .passed d scope ∈ events ∧
      Declares before d after scope
  /-- The scopes that begin at a semicolon are the ones without braces, which belong to namespaces; the
  other ones begin at a brace or at the open tag that owns them. -/
  begins : ∀ s ∈ scopesOf events, ∃ t ∈ tokens, t.index = s.first ∧
    (s.braceless = true ↔ t.isPunct ";" = true) ∧
    (s.braceless = true → s.ownerKind? = some .namespaceKeyword) ∧
    (s.braceless = false → t.isPunct "\x7b" = true ∨ (t.kind = .openTag ∧ s.owner = some t))

section

variable {tokens pre : List Token} {first next : Int} {events : List Event} {s : Traversal}
  {scopes stack : List Scope} {pending : Option Token}

/-- Every scope of a list of events opens in it. -/
theorem Tracks.reopen_mem (h : Tracks first next events scopes stack) {a : Scope} (ha : a ∈ scopes) :
    a.reopen ∈ openedScopes events := by
  have hhistory : Event.opened a.reopen ∈ eventsOfScope a.first events := by
    rw [h.histories]
    exact List.mem_flatMap.mpr
      ⟨a, List.mem_filter.mpr ⟨ha, decide_eq_true rfl⟩, List.mem_cons_self ..⟩
  exact List.mem_filterMap.mpr ⟨_, (List.mem_filter.mp hhistory).1, rfl⟩

/-- A scope that opens in a list of events is one of its scopes. -/
theorem Tracks.exists_of_opened (h : Tracks first next events scopes stack) {o : Scope}
    (ho : .opened o ∈ events) : ∃ a ∈ scopes, a.first = o.first ∧ o = a.reopen := by
  have hmem : Event.opened o ∈ eventsOfScope o.first events :=
    List.mem_filter.mpr ⟨ho, by simp [Event.scopeFirst?]⟩
  rw [h.histories] at hmem
  obtain ⟨a, ha, hhistory⟩ := List.mem_flatMap.mp hmem
  obtain ⟨hscopes, hsame⟩ := List.mem_filter.mp ha
  refine ⟨a, hscopes, of_decide_eq_true hsame, ?_⟩
  rw [Scope.history, List.mem_cons] at hhistory
  rcases hhistory with hopened | hclosed
  · exact Event.opened.inj hopened
  · split at hclosed
    · cases List.mem_singleton.mp hclosed
    · cases hclosed

/-- A scope without braces begins at a semicolon, and no other one does. -/
theorem BeginsAt.of_reopen {t : Token} {a : Scope} (h : BeginsAt t a.reopen) :
    (a.braceless = true ↔ t.isPunct ";" = true) ∧
      (a.braceless = true → a.ownerKind? = some .namespaceKeyword) ∧
      (a.braceless = false → t.isPunct "\x7b" = true ∨ (t.kind = .openTag ∧ a.owner = some t)) := by
  have hbraceless : a.reopen.braceless = a.braceless := rfl
  rcases h with ⟨hopen, hpunct, hnamespace⟩ | ⟨hopen, hstart⟩
  · rw [hbraceless] at hopen
    exact ⟨by simp [hopen, hpunct], fun _ => hnamespace, by simp [hopen]⟩
  · rw [hbraceless] at hopen
    have hother : t.isPunct ";" = false := by
      rcases hstart with hbrace | ⟨htag, -⟩
      · rw [isPunct_of_isPunct hbrace]
        rfl
      · simp [isPunct, htag]
    exact ⟨by simp [hopen, hother], by simp [hopen], fun _ => hstart⟩

/-- The scopes are owned whether they have closed or not. -/
theorem Waits.owned (h : Waits tokens pre next events s) {later : List Event} {stop : Int}
    (hlater : ∀ scope, .opened scope ∉ later)
    (htracks : Tracks first stop (events ++ later) scopes stack)
    (hattributed : Attributed tokens stop (events ++ later) pending) :
    Owned tokens (events ++ later) := by
  have hopened {a : Scope} (ha : a ∈ scopes) : a.reopen ∈ openedScopes (events ++ later) :=
    htracks.reopen_mem ha
  have howner := h.owner_mono hlater
  have hscopes : openedScopes (events ++ later) = openedScopes events := by
    rw [openedScopes_append, openedScopes_eq_nil hlater, List.append_nil]
  -- A keyword was passed before its scope and after every scope that is older than it.
  have hkeyword : ∀ a ∈ scopes, ∀ d, a.owner = some d → d.kind ≠ .openTag →
      Awaits tokens (events ++ later) d ∧ d.index < a.first ∧
        ∀ b ∈ scopes, b.first < d.index ∨ a.first ≤ b.first := by
    intro a ha d hd hkind
    rcases howner _ (hopened ha) d hd with ⟨htag, -⟩ | ⟨hawaits, hlt, hothers⟩
    · exact absurd htag hkind
    · exact ⟨hawaits, hlt, fun b hb => hothers b.reopen (hopened hb)⟩
  have hdistinct : scopes.Pairwise fun a b => ∀ d, a.owner = some d → b.owner ≠ some d := by
    refine htracks.sorted.imp_of_mem fun {a b} ha hb hlt d hda hdb => ?_
    by_cases hkind : d.kind = .openTag
    · rcases howner _ (hopened ha) d hda with ⟨-, hfirst⟩ | ⟨hawaits, -⟩
      · rcases howner _ (hopened hb) d hdb with ⟨-, hfirst'⟩ | ⟨-, -, hothers⟩
        · have : a.first = b.first := hfirst.symm.trans hfirst'
          omega
        · have hfirst : d.index = a.first := hfirst
          have := hothers _ (hopened ha)
          have : a.reopen.first = a.first := rfl
          have : b.reopen.first = b.first := rfl
          omega
      · obtain ⟨before, after, scope, -, -, hdeclares⟩ := hawaits
        simp [Declares, hkind] at hdeclares
    · obtain ⟨-, hlt', -⟩ := hkeyword a ha d hda hkind
      obtain ⟨-, -, hothers⟩ := hkeyword b hb d hdb hkind
      have := hothers a ha
      omega
  exact {
    distinct := htracks.record ▸ hdistinct
    parent := hattributed.parent
    next := by
      rw [htracks.record]
      intro a ha d hd hkind
      obtain ⟨-, hlt, hothers⟩ := hkeyword a ha d hd hkind
      refine ⟨hlt, fun b hb => ?_, fun p hp => ?_⟩
      · have := hothers b hb
        omega
      · obtain ⟨hmem, hspans⟩ := List.mem_filter.mp (List.mem_of_getLast? hp)
        have := hothers p hmem
        have : p.first < a.first := by
          have := (Bool.and_eq_true_iff.mp hspans).1
          exact of_decide_eq_true this
        omega
    declares := by
      rw [htracks.record]
      exact fun a ha d hd hkind => (hkeyword a ha d hd hkind).1
    begins := by
      rw [htracks.record]
      intro a ha
      obtain ⟨t, ht, hfirst, hbegins⟩ := h.begins _ (hscopes ▸ hopened ha)
      exact ⟨t, ht, hfirst, hbegins.of_reopen⟩ }

end

/-- The tokens that can be read of a list are numbered. -/
theorem numbered_readTokens (raws : List RawToken) (index : Int) :
    Numbered index (readTokens index raws).1 := by
  induction raws generalizing index with
  | nil => trivial
  | cons raw rest ih =>
    simp only [readTokens]
    cases hread : Token.ofRaw raw index with
    | error fault => trivial
    | ok t => exact ⟨Token.index_ofRaw hread, ih (index + 1)⟩

theorem length_readTokens (raws : List RawToken) (index : Int) :
    (readTokens index raws).1.length ≤ raws.length := by
  induction raws generalizing index with
  | nil => exact Nat.le_refl _
  | cons raw rest ih =>
    simp only [readTokens]
    cases Token.ofRaw raw index with
    | error fault => exact Nat.zero_le _
    | ok t => exact Nat.succ_le_succ (ih (index + 1))

/-- The tokens that can be passed come first of those that can be read. -/
theorem passable_isPrefix (readable : List Token) (fault : Option TokenFault) :
    passable readable fault <+: readable := by
  unfold passable
  split
  · unfold decided
    split
    · rename_i t before hdrop
      have hsuffix : t :: before <:+ readable.reverse := hdrop ▸ List.dropWhile_suffix _
      have hprefix : before.reverse ++ [t] <+: readable := by
        simpa using List.reverse_prefix.mpr hsuffix
      split
      · exact (List.prefix_append _ _).trans hprefix
      · exact List.prefix_refl _
    · exact List.prefix_refl _
  · exact List.prefix_refl _

/-- The scopes of a run over some tokens are owned, and so they are when the open ones have closed at a
position behind the run. -/
theorem owned_run {first : Int} {ts beyond : List Token} (hnumbered : Numbered first ts) :
    Owned (ts ++ beyond) (Traversal.run beyond {} ts).2 ∧ ∀ stop, first + ts.length ≤ stop →
      Owned (ts ++ beyond)
        ((Traversal.run beyond {} ts).2 ++ (Traversal.run beyond {} ts).1.finish (stop - 1)) := by
  have hwaits := (Waits.start (ts ++ beyond) first).run (s := {}) beyond rfl hnumbered
  obtain ⟨scopes, htracks⟩ :=
    (Tracks.start first first).run (s := {}) beyond (Int.le_refl first) hnumbered
  have hattributed := (Attributed.start (ts ++ beyond) first).run (s := {}) beyond
    (Tracks.start first first) (Int.le_refl first) hnumbered
    fun t ht => List.mem_append_left beyond ht
  rw [List.nil_append] at hwaits htracks hattributed
  constructor
  · have hnothing : ∀ scope, Event.opened scope ∉ ([] : List Event) := fun _ => List.not_mem_nil
    rw [← List.append_nil (Traversal.run beyond {} ts).2] at htracks hattributed ⊢
    exact hwaits.owned hnothing htracks hattributed
  · intro stop hstop
    obtain ⟨scopes', hfinish⟩ := htracks.finish hstop
    have hattributed' := hattributed.finish htracks hstop
    have hclosing : ∀ scope, Event.opened scope ∉
        (Traversal.run beyond {} ts).1.finish (stop - 1) := by
      intro scope hscope
      obtain ⟨s, -, hs⟩ := List.mem_map.mp hscope
      cases hs
    exact hwaits.owned hclosing hfinish hattributed'

/-- Every stream and range, whether the traversal is whole, abandoned, or ended by a token that cannot
be read: a token owns at most one scope; no other scope opens between a keyword and its scope, whose
parent is the owner of the scope around it, which opened before the keyword; a scope has no braces just
where it begins at a semicolon, and then it belongs to the keyword `namespace`; and a keyword that owns
a scope stands where it may own one. -/
theorem owned_visit (v : Visitor) (limit : Option Nat) :
    Owned (readTokens v.range.first (v.range.slice v.tokens)).1 (v.visit limit).2.events := by
  have hnumbered := numbered_readTokens (v.range.slice v.tokens) v.range.first
  have hlength := length_readTokens (v.range.slice v.tokens) v.range.first
  rw [v.visit_eq]
  revert hnumbered hlength
  generalize readTokens v.range.first (v.range.slice v.tokens) = read
  obtain ⟨readable, fault⟩ := read
  intro hnumbered hlength
  dsimp only at hnumbered hlength ⊢
  obtain ⟨passed, hpassed⟩ : ∃ passed,
      (limit.elim (passable readable fault) fun n => (passable readable fault).take n) = passed :=
    ⟨_, rfl⟩
  have hprefix : passed <+: readable := by
    rw [← hpassed]
    cases limit with
    | none => exact passable_isPrefix readable fault
    | some n =>
      have htake : (passable readable fault).take n <+: passable readable fault :=
        List.take_prefix n _
      exact htake.trans (passable_isPrefix readable fault)
  obtain ⟨beyond, rfl⟩ := hprefix
  have hdrop : (passed ++ beyond).drop passed.length = beyond := List.drop_left
  obtain ⟨hrun, hfinish⟩ : Owned (passed ++ beyond) (Traversal.run beyond {} passed).2 ∧ _ :=
    owned_run ((numbered_append _ _ _).mp hnumbered).1
  unfold visitRead
  dsimp only
  rw [hpassed, hdrop]
  split
  · exact hrun
  · split
    · exact hrun
    · simp only [TokenRange.slice, List.length_drop, List.length_take, List.length_append] at hlength
      by_cases hrange : v.range.first ≤ v.range.stop
      · exact hfinish v.range.stop (by omega)
      · -- The range is empty: nothing is passed.
        have hnil : passed = [] := List.eq_nil_of_length_eq_zero (by omega)
        subst hnil
        exact hrun

end Reflection
