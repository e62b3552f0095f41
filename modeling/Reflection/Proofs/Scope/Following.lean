import Mathlib.Data.List.Induction
import Reflection.Proofs.Scope.Keywords
import Reflection.Proofs.Scope.Reuse

/-!
# Cursors on the way of a traversal

A cursor keeps the position of the keyword that waits for its block and finds what stands before a token and
behind it by reading; a `Traversal` keeps the keyword itself and the kind of the last significant token. On a
stream that was read already both do the same with a token. Reading changes nothing there, and so what a
cursor does is computed from what the state of a traversal does.

## Main definitions

* `Cursor.Lenient`, `Cursor.heard`: no event makes the handler fail; what is recorded of the events.
* `Cursor.showing`: a cursor at a state of a traversal.
* `Cursor.Follows`: a computation does what leads a traversal from one state to another one.
* `Cursor.Ahead`, `Cursor.At`: what the stream holds from a position on, and what a state knows of the
  tokens before it.

## Main statements

* `Cursor.follows_process`: a token has the effect that it has on the state of a traversal.
* `Cursor.follows_pass`: a token is passed as `Traversal.step` passes it.
* `Cursor.At.step`: what a state knows after a token.
-/
namespace Reflection

/-- A scope that is open after a token began at that token or was open before. -/
theorem ScopeStep.first_lt {t : Token} {scopes after : List Scope} {events : List Event} {index : Nat}
    (h : ScopeStep t scopes after events) (hindex : t.index = index)
    (hfirst : ∀ scope ∈ scopes, scope.first < index) :
    ∀ scope ∈ after, scope.first < (index + 1 : Nat) := by
  have hkept : ∀ scope ∈ scopes, scope.first < (index + 1 : Nat) := fun scope hscope =>
    Int.lt_trans (hfirst scope hscope) (by omega)
  cases h with
  | keep => exact hkept
  | opens scopes opened hopened =>
    intro scope hscope
    rcases List.mem_cons.mp hscope with rfl | hmem
    · omega
    · exact hkept scope hmem
  | closes closed rest => exact fun scope hscope => hkept scope (List.mem_cons_of_mem _ hscope)
  | closesBefore closed rest => exact fun scope hscope => hkept scope (List.mem_cons_of_mem _ hscope)
  | unbalanced => exact hkept

namespace Cursor
open CursorM

/-- No event makes the handler fail. -/
def Lenient (c : Cursor) : Prop := ∀ takes log, c.handler = some takes → takes log = true

/-- What is recorded of the events of a traversal: scopes are reported to a handler only. -/
def heard (c : Cursor) (events : List Event) : List Event :=
  events.filter fun
    | .opened _ | .closed _ => c.handler.isSome
    | _ => true

@[simp] theorem heard_nil (c : Cursor) : c.heard [] = [] := rfl

@[simp] theorem heard_append (c : Cursor) (events later : List Event) :
    c.heard (events ++ later) = c.heard events ++ c.heard later :=
  List.filter_append events later

theorem heard_opened (c : Cursor) (scope : Scope) :
    c.heard [.opened scope] = if c.handler.isSome then [.opened scope] else [] := by
  unfold heard
  cases c.handler <;> rfl

theorem heard_closed (c : Cursor) (scope : Scope) :
    c.heard [.closed scope] = if c.handler.isSome then [.closed scope] else [] := by
  unfold heard
  cases c.handler <;> rfl

/-- The cursor at a state of a traversal which it led to from there, with the events until then. -/
def showing (c : Cursor) (s : Traversal) (events : List Event) : Cursor :=
  { c with
    scopes := s.scopes
    pending := s.pending.map (·.index.toNat)
    log := c.log ++ c.heard events }

/-- A token was read at a position. -/
def Stored (c : Cursor) (position : Nat) (t : Token) : Prop :=
  c.entries[position]? = some (.token t) ∧ t.index = position

/-- From a position on, the range holds these tokens, which were read, and then a raw token that cannot be
read if there is a fault. -/
inductive Ahead (c : Cursor) : Nat → List Token → Option TokenFault → Prop
  | done {index : Nat} (hstop : c.range.stop ≤ index) : Ahead c index [] none
  | fault {index : Nat} {raw : RawToken} {fault : TokenFault} (hlt : index < c.range.stop)
      (hraw : c.entries[index]? = some raw) (hfault : Token.ofRaw raw index = .error fault) :
      Ahead c index [] (some fault)
  | token {index : Nat} {t : Token} {rest : List Token} {fault : Option TokenFault}
      (hlt : index < c.range.stop) (hstored : c.Stored index t) (hrest : Ahead c (index + 1) rest fault) :
      Ahead c index (t :: rest) fault

/-- What looking ahead finds in tokens with or without a fault behind them. -/
def lookahead (rest : List Token) (fault : Option TokenFault) : Except CursorFault (Option Token) :=
  match rest.find? (!·.isIgnorable) with
  | some next => .ok (some next)
  | none => fault.elim (.ok none) fun fault => .error (.unreadable fault)

/-- What a state of a traversal knows of the tokens before a position: the kind of the last significant one
and the keyword that waits. Every open scope begins before the position. -/
structure At (c : Cursor) (before : List Token) (index : Nat) (s : Traversal) : Prop where
  index_eq : index = c.range.first + before.length
  behind (k : Nat) (t : Token) (h : before[k]? = some t) : c.Stored (c.range.first + k) t
  previous : s.previous = (Token.previousSignificant? before.reverse).map Token.kind
  pending (t : Token) (h : s.pending = some t) : c.Stored t.index.toNat t
  first_lt (scope : Scope) (h : scope ∈ s.scopes) : scope.first < index

variable {c : Cursor} {s : Traversal} {events : List Event} {index : Nat} {before rest : List Token}
  {t : Token} {fault : Option TokenFault}

/-! ## Reading -/

theorem on_fetch_stored (h : c.Stored index t) :
    (fetch index).on (c.showing s events) = (.ok t, c.showing s events) := by
  obtain ⟨hentry, hindex⟩ := h
  have hread : Token.ofRaw (.token t) index = .ok t := by
    rw [← hindex]
    rfl
  have hset : c.entries.set index (.token t) = c.entries := by
    obtain ⟨hlt, heq⟩ := List.getElem?_eq_some_iff.mp hentry
    rw [← heq, List.set_getElem_self]
  rw [on_fetch, locate?_natCast, show (c.showing s events).entries = c.entries from rfl, hentry]
  dsimp only [Option.map_some]
  rw [hread]
  dsimp only
  rw [hset]
  rfl

theorem on_fetch_fault {raw : RawToken} {fault : TokenFault} (hraw : c.entries[index]? = some raw)
    (hfault : Token.ofRaw raw index = .error fault) :
    (fetch index).on (c.showing s events) = (.error (.unreadable fault), c.showing s events) := by
  rw [on_fetch, locate?_natCast, show (c.showing s events).entries = c.entries from rfl, hraw]
  dsimp only [Option.map_some]
  rw [hfault]

/-- Looking ahead finds the next significant token, and fails at a raw token that cannot be read before
it. -/
theorem on_nextSignificant? (h : c.Ahead index rest fault) :
    (nextSignificant? index (c.range.stop - index)).on (c.showing s events) =
      (lookahead rest fault, c.showing s events) := by
  induction h with
  | done hstop =>
    rw [Nat.sub_eq_zero_of_le hstop]
    rfl
  | @fault index raw fault hlt hraw hfault =>
    obtain ⟨n, hn⟩ := Nat.exists_eq_add_of_lt hlt
    rw [show c.range.stop - index = n + 1 by omega, nextSignificant?, on_bind,
      on_fetch_fault hraw hfault]
    rfl
  | @token index t rest fault hlt hstored hrest ih =>
    rw [show c.range.stop - index = c.range.stop - (index + 1) + 1 by omega, nextSignificant?, on_bind,
      on_fetch_stored hstored, lookahead, List.find?_cons]
    dsimp only
    cases hignorable : t.isIgnorable with
    | true => exact ih
    | false => rfl

/-- Looking behind finds the last significant token. -/
theorem on_lastSignificant? {first : Nat}
    (h : ∀ k t, before[k]? = some t → c.Stored (first + k) t) :
    (lastSignificant? first before.length).on (c.showing s events) =
      (.ok (Token.previousSignificant? before.reverse), c.showing s events) := by
  induction before using List.reverseRecOn with
  | nil => rfl
  | append_singleton before t ih =>
    have hlast : c.Stored (first + before.length) t := h before.length t (by simp)
    have hbefore := ih fun k u hu => h k u (by
      rw [List.getElem?_append_left (List.getElem?_eq_some_iff.mp hu).1, hu])
    rw [List.length_append, List.length_singleton, lastSignificant?, on_bind, on_fetch_stored hlast,
      List.reverse_append, List.reverse_singleton, List.singleton_append, Token.previousSignificant?,
      List.find?_cons]
    dsimp only
    cases hignorable : t.isIgnorable with
    | true => exact hbefore
    | false => rfl

theorem on_waiting? (hpending : ∀ t, s.pending = some t → c.Stored t.index.toNat t) :
    waiting?.on (c.showing s events) = (.ok s.pending, c.showing s events) := by
  have hposition : (c.showing s events).pending = s.pending.map (·.index.toNat) := rfl
  unfold waiting?
  rw [on_bind, on_look, hposition]
  cases h : s.pending with
  | none => rfl
  | some t =>
    dsimp only [Option.map_some]
    rw [on_bind, on_fetch_stored (hpending t h)]
    rfl

/-! ## Events -/

theorem on_note {event : Event} (h : c.heard [event] = [event]) :
    (note event).on (c.showing s events) = (.ok (), c.showing s (events ++ [event])) := by
  unfold note showing
  rw [on_modify, heard_append, h, List.append_assoc]

theorem on_report (hlenient : c.Lenient) {event : Event}
    (h : c.heard [event] = if c.handler.isSome then [event] else []) :
    (report event).on (c.showing s events) = (.ok (), c.showing s (events ++ [event])) := by
  have hhandler : (c.showing s events).handler = c.handler := rfl
  unfold report
  rw [on_bind, on_look, hhandler]
  dsimp only
  cases hsome : c.handler with
  | none =>
    rw [hsome] at h
    unfold showing
    rw [heard_append, h]
    simp
  | some takes =>
    rw [hsome] at h
    dsimp only
    rw [on_bind, on_note h]
    dsimp only
    rw [on_bind, on_look]
    dsimp only
    rw [hlenient takes _ hsome]
    rfl

/-! ## Scopes -/

/-- A computation of a cursor does what leads a traversal from one state to another one with some events. -/
def Follows (c : Cursor) (m : CursorM Unit) (s : Traversal) (events : List Event)
    (next : Traversal × List Event) : Prop :=
  m.on (c.showing s events) = (.ok (), c.showing next.1 (events ++ next.2))

theorem follows_pure : c.Follows (pure ()) s events (s, []) := by
  unfold Follows
  rw [List.append_nil]
  rfl

/-- One computation after another one. -/
theorem Follows.bind {m next : CursorM Unit} {after after' : Traversal × List Event}
    (hm : c.Follows m s events after)
    (hnext : c.Follows next after.1 (events ++ after.2) after') :
    c.Follows (m >>= fun _ => next) s events (after'.1, after.2 ++ after'.2) := by
  unfold Follows at *
  rw [on_bind, hm]
  dsimp only
  rw [hnext, List.append_assoc]

theorem follows_await (h : c.Stored index t) :
    c.Follows (await (some index)) s events ({ s with pending := some t }, []) := by
  have hindex : t.index.toNat = index := by rw [h.2, Int.toNat_natCast]
  unfold Follows await showing
  rw [on_modify, List.append_nil, Option.map_some, hindex]

theorem follows_openScope (hlenient : c.Lenient)
    (hpending : ∀ t, s.pending = some t → c.Stored t.index.toNat t) (braceless : Bool) :
    c.Follows (openScope index braceless) s events (s.openScope index braceless) := by
  unfold Follows openScope
  rw [on_bind, on_look]
  dsimp only
  rw [on_bind, on_waiting? hpending]
  dsimp only
  rw [on_bind, on_modify]
  exact on_report (s := (s.openScope index braceless).1) hlenient (c.heard_opened _)

theorem follows_closeScope_cons (hlenient : c.Lenient) {scope : Scope} {scopes : List Scope}
    (hscopes : s.scopes = scope :: scopes) (last : Int) :
    c.Follows (closeScope last) s events
      ({ s with scopes }, [.closed (scope.close (min last (c.range.stop - 1)))]) := by
  have hshown : (c.showing s events).scopes = scope :: scopes := hscopes
  unfold Follows closeScope
  rw [on_bind, on_look, hshown]
  dsimp only
  rw [on_bind, on_modify]
  dsimp only
  rw [on_bind, on_look]
  exact on_report (s := { s with scopes }) hlenient (c.heard_closed _)

theorem follows_closeScope (hlenient : c.Lenient) {last : Int} (hlast : last ≤ c.range.stop - 1) :
    c.Follows (closeScope last) s events (s.closeScope last) := by
  unfold Traversal.closeScope
  cases hscopes : s.scopes with
  | nil =>
    have hshown : (c.showing s events).scopes = [] := hscopes
    unfold Follows closeScope
    rw [on_bind, on_look, hshown]
    exact on_note rfl
  | cons scope rest =>
    have hclose : c.Follows (closeScope last) s events _ :=
      follows_closeScope_cons hlenient hscopes last
    rwa [Int.min_eq_left hlast] at hclose

/-- A namespace without braces began before the keyword that ends it. -/
theorem follows_closeBraceless (hlenient : c.Lenient) (hlt : index < c.range.stop)
    (hfirst : ∀ scope ∈ s.scopes, scope.first < index) :
    c.Follows (closeBraceless index) s events (s.closeBraceless index) := by
  unfold Follows closeBraceless Traversal.closeBraceless
  rw [on_bind, on_look]
  cases hscopes : s.scopes with
  | nil =>
    have hshown : (c.showing s events).scopes = [] := hscopes
    rw [hshown]
    exact follows_pure
  | cons scope rest =>
    have hshown : (c.showing s events).scopes = scope :: rest := hscopes
    have hbegun : scope.first < index := hfirst scope (hscopes ▸ List.mem_cons_self ..)
    rw [hshown]
    dsimp only
    cases scope.braceless with
    | true =>
      rw [if_pos rfl, if_pos rfl, Int.max_eq_right (by omega)]
      exact follows_closeScope hlenient (by omega)
    | false => exact follows_pure

theorem follows_terminate (hlenient : c.Lenient)
    (hpending : ∀ t, s.pending = some t → c.Stored t.index.toNat t) :
    c.Follows (terminate index) s events (s.terminate index) := by
  unfold Follows terminate Traversal.terminate
  rw [on_bind, on_waiting? hpending]
  dsimp only
  cases s.pending.map Token.kind with
  | none => exact follows_pure
  | some kind =>
    cases kind with
    | namespaceKeyword => exact follows_openScope hlenient hpending true
    | functionKeyword =>
      rw [List.append_nil]
      rfl
    | _ => exact follows_pure

/-! ## One token -/

/-- What a token does to a cursor is what it does to the state of a traversal, unless it is a keyword of a
namespace and looking ahead from it fails. -/
theorem follows_process (hlenient : c.Lenient) (hat : c.At before index s) (hlt : index < c.range.stop)
    (hstored : c.Stored index t) (hrest : c.Ahead (index + 1) rest fault)
    (hnext : t.kind = .namespaceKeyword → lookahead rest fault = .ok (rest.find? (!·.isIgnorable))) :
    c.Follows (process index t) s events (s.process t rest) := by
  have hwait : c.Follows (await (some index)) s events ({ s with pending := some t }, []) :=
    follows_await hstored
  have hstored' : c.Stored t.index.toNat t := by rwa [hstored.2, Int.toNat_natCast]
  unfold Follows process Traversal.process
  rw [on_bind, on_look]
  dsimp only
  rw [on_bind, on_look, show (c.showing s events).scopes = s.scopes from rfl,
    show (c.showing s events).range = c.range from rfl, hstored.2]
  dsimp only
  cases hkind : t.kind with
  | openTag =>
    dsimp only
    cases s.scopes.isEmpty with
    | true =>
      refine hwait.bind (follows_openScope hlenient (fun u hu => ?_) false)
      cases hu
      exact hstored'
    | false => exact follows_pure
  | namespaceKeyword =>
    dsimp only
    rw [on_bind, on_nextSignificant? hrest, hnext hkind]
    dsimp only
    cases (rest.find? (!·.isIgnorable)).any (·.kind == .separator) with
    | true => exact follows_pure
    | false =>
      have hclose : c.Follows (closeBraceless index) s events (s.closeBraceless index) :=
        follows_closeBraceless hlenient hlt hat.first_lt
      have hboth := hclose.bind (follows_await hstored)
      rwa [List.append_nil] at hboth
  | interfaceKeyword => exact hwait
  | traitKeyword => exact hwait
  | classKeyword =>
    dsimp only
    have hlength : index - c.range.first = before.length := by
      have hindex := hat.index_eq
      omega
    rw [on_bind, hlength, on_lastSignificant? hat.behind, hat.previous]
    dsimp only
    cases hlast : Token.previousSignificant? before.reverse with
    | none => exact hwait
    | some u =>
      by_cases hcolon : u.kind = .doubleColon
      · simp only [Option.any_some, Option.map_some, hcolon, beq_self_eq_true, if_true]
        exact follows_pure
      · simp only [Option.any_some, Option.map_some, Option.some.injEq, hcolon,
          beq_eq_false_iff_ne.mpr hcolon, Bool.false_eq_true, if_false]
        exact hwait
  | functionKeyword =>
    dsimp only
    rw [show s.scopes.head? = s.current? from rfl]
    by_cases howns : (s.current?.bind Scope.ownerKind?).any Traversal.ownsFunctions = true
    · rw [if_pos howns, if_pos howns]
      exact hwait
    · rw [if_neg howns, if_neg howns]
      exact follows_pure
  | punctuation =>
    dsimp only
    split
    · exact follows_terminate hlenient hat.pending
    · split
      · exact follows_openScope hlenient hat.pending false
      · split
        · exact follows_closeScope hlenient (by omega)
        · exact follows_pure
  | _ => exact follows_pure

theorem on_process_error (hrest : c.Ahead (index + 1) rest fault) {cause : CursorFault}
    (hkind : t.kind = .namespaceKeyword) (hfails : lookahead rest fault = .error cause) :
    (process index t).on (c.showing s events) = (.error cause, c.showing s events) := by
  unfold process
  rw [on_bind, on_look]
  dsimp only
  rw [on_bind, on_look, show (c.showing s events).range = c.range from rfl, hkind]
  dsimp only
  rw [on_bind, on_nextSignificant? hrest, hfails]

/-- What a state knows after a token. -/
theorem At.step (hat : c.At before index s) (hstored : c.Stored index t) (rest : List Token) :
    c.At (before ++ [t]) (index + 1) (s.step t rest).1 where
  index_eq := by
    rw [List.length_append, List.length_singleton, hat.index_eq, Nat.add_assoc]
  behind k u hu := by
    rcases Nat.lt_or_ge k before.length with hk | hk
    · rw [List.getElem?_append_left hk] at hu
      exact hat.behind k u hu
    · have hmem := List.getElem?_append_right hk ▸ hu
      have hzero : k - before.length = 0 := by
        have := (List.getElem?_eq_some_iff.mp hmem).1
        simpa using this
      rw [hzero] at hmem
      cases hmem
      rwa [show k = before.length by omega, ← hat.index_eq]
  previous := Traversal.previous_step hat.previous
  pending u hu := by
    rw [Traversal.pending_step] at hu
    rcases s.pending_process t rest with hsame | hnone | ⟨hself, -⟩
    · exact hat.pending u (hsame ▸ hu)
    · rw [hnone] at hu
      cases hu
    · rw [hself] at hu
      cases hu
      rwa [hstored.2, Int.toNat_natCast]
  first_lt := by
    rw [Traversal.scopes_step]
    exact (s.process_scopeStep t rest).first_lt hstored.2 hat.first_lt

theorem follows_pass (hlenient : c.Lenient) (hat : c.At before index s) (hlt : index < c.range.stop)
    (hstored : c.Stored index t) (hrest : c.Ahead (index + 1) rest fault)
    (hnext : t.kind = .namespaceKeyword → lookahead rest fault = .ok (rest.find? (!·.isIgnorable))) :
    c.Follows (pass index) s events (s.step t rest) := by
  have hprocess : c.Follows (process index t) s events (s.process t rest) :=
    follows_process hlenient hat hlt hstored hrest hnext
  unfold Follows pass
  rw [on_bind, on_fetch_stored hstored]
  dsimp only
  rw [on_bind, hprocess]
  dsimp only
  rw [on_bind, on_look]
  dsimp only
  rw [on_note rfl, s.events_step, List.append_assoc]
  unfold showing Traversal.current?
  rw [Traversal.scopes_step, Traversal.pending_step]

end Cursor
end Reflection
