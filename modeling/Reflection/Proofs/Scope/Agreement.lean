import Mathlib.Data.List.TakeWhile
import Reflection.Proofs.Scope.Following
import Reflection.Proofs.Scope.Range

/-!
# Cursors and visitors

A visitor reads the whole of its range before it begins, a cursor reads on its way. Unless an event handler
ends the traversal they report the same. The comparison is made on a cursor that has read everything
already; every other cursor does the same as that one. With it a used cursor is compared to a new one: what
was done before shows neither in what a traversal reports nor in how it ends.

## Main definitions

* `Cursor.passing`: a run over those tokens that can be passed.
* `Cursor.settled`: a stream that was read as far as it can be.

## Main statements

* `Cursor.on_passFrom`: some tokens are passed as `Traversal.run` passes them.
* `Cursor.visit_eq_visitor`, `Cursor.visit_after_eq_visitor`: a cursor does what a visitor of the raw tokens
  does, also after a history of steps.
* `Cursor.visit_after`: a traversal after a history of steps is the traversal of a new cursor.
-/
namespace Reflection

/-- A visitor of a range whose tokens can be read does not fail. -/
theorem Visitor.fault_of_readable (v : Visitor) (hreadable : ∀ raw ∈ v.range.slice v.tokens, raw.Readable)
    (limit : Option Nat) : (limit.elim v.traverse v.iterate).2.fault = none := by
  have hvisit : (v.visit limit).2.fault = none := by
    rw [v.visit_eq]
    dsimp only
    rw [(readTokens_of_readable _ v.range.first hreadable).1]
    unfold visitRead
    dsimp only [Option.isSome_none]
    split <;> rfl
  cases limit with
  | none => exact hvisit
  | some n =>
    show (v.iterate n).2.fault = none
    unfold Visitor.iterate
    split
    · rfl
    · exact hvisit

namespace Cursor
open CursorM

variable {c : Cursor} {s : Traversal} {events : List Event} {index : Nat} {before rest : List Token}
  {t : Token} {fault : Option TokenFault}

/-! ## What can be passed -/

theorem lookahead_cases (rest : List Token) (fault : Option TokenFault) :
    lookahead rest fault = .ok (rest.find? (!·.isIgnorable)) ∨
      ∃ cause, fault = some cause ∧ rest.find? (!·.isIgnorable) = none ∧
        lookahead rest fault = .error (.unreadable cause) := by
  unfold lookahead
  cases hfind : rest.find? (!·.isIgnorable) with
  | some next => exact .inl rfl
  | none =>
    cases fault with
    | none => exact .inl rfl
    | some cause => exact .inr ⟨cause, rfl, rfl, rfl⟩

/-- Of tokens before a fault all can be passed but a keyword of a namespace with nothing significant behind
it. -/
theorem decided_cons (t : Token) (rest : List Token) :
    decided (t :: rest) =
      if t.kind = .namespaceKeyword ∧ rest.find? (!·.isIgnorable) = none then []
      else t :: decided rest := by
  have hnone : rest.reverse.dropWhile Token.isIgnorable = [] ↔ rest.find? (!·.isIgnorable) = none := by
    simp [List.dropWhile_eq_nil_iff, List.find?_eq_none]
  unfold decided
  rw [List.reverse_cons, List.dropWhile_append]
  cases hdrop : rest.reverse.dropWhile Token.isIgnorable with
  | nil =>
    have hfind := hnone.mp hdrop
    by_cases hkind : t.kind = .namespaceKeyword
    · have hsignificant : t.isIgnorable = false := by
        simp [Token.isIgnorable, hkind, TokenKind.isIgnorable]
      simp [hkind, hfind, hsignificant]
    · cases hignorable : t.isIgnorable <;> simp [hkind, hignorable]
  | cons u before =>
    have hkept : ¬(t.kind = .namespaceKeyword ∧ rest.find? (!·.isIgnorable) = none) :=
      fun h => List.cons_ne_nil u before (hdrop ▸ hnone.mpr h.2)
    simp only [hkept, if_false, List.isEmpty_cons, Bool.false_eq_true, List.cons_append]
    split
    · rw [List.reverse_append]
      rfl
    · rfl

theorem passable_cons {t : Token} {rest : List Token} {fault : Option TokenFault}
    (hnext : t.kind = .namespaceKeyword → lookahead rest fault = .ok (rest.find? (!·.isIgnorable))) :
    passable (t :: rest) fault = t :: passable rest fault := by
  unfold passable
  cases fault with
  | none => rfl
  | some cause =>
    rw [Option.isSome_some, if_pos rfl, if_pos rfl, decided_cons, if_neg]
    rintro ⟨hkind, hnone⟩
    simp [lookahead, hnone] at hnext
    exact hnext hkind

/-! ## A whole traversal -/

/-- The outcome of passing `n` tokens at a state: a run over those of them that can be passed, and the fault
behind these if they are fewer. -/
def passing (c : Cursor) (s : Traversal) (events : List Event) (tokens : List Token)
    (fault : Option TokenFault) (n : Nat) : Except CursorFault Unit × Cursor :=
  let passed := (passable tokens fault).take n
  let after := Traversal.run (tokens.drop passed.length) s passed
  (if n ≤ (passable tokens fault).length then .ok ()
    else fault.elim (.ok ()) fun cause => .error (.unreadable cause),
    c.showing after.1 (events ++ after.2))

theorem passing_zero (tokens : List Token) :
    c.passing s events tokens fault 0 = (.ok (), c.showing s events) := by
  simp [passing]

theorem passing_nil {cause : TokenFault} (n : Nat) :
    c.passing s events [] (some cause) (n + 1) = (.error (.unreadable cause), c.showing s events) := by
  simp [passing, passable, decided]

theorem passing_cons (n : Nat) 
    (hnext : t.kind = .namespaceKeyword → lookahead rest fault = .ok (rest.find? (!·.isIgnorable))) :
    c.passing s events (t :: rest) fault (n + 1) =
      c.passing (s.step t rest).1 (events ++ (s.step t rest).2) rest fault n := by
  have hprefix : (passable rest fault).take n <+: rest :=
    (List.take_prefix _ _).trans (passable_isPrefix rest fault)
  have hsplit : (passable rest fault).take n ++ rest.drop ((passable rest fault).take n).length = rest :=
    List.prefix_iff_eq_append.mp hprefix
  unfold passing
  rw [passable_cons hnext, List.take_succ_cons]
  dsimp only
  rw [List.length_cons, List.length_cons, List.drop_succ_cons, Traversal.run_cons, hsplit,
    List.append_assoc]
  simp only [Nat.add_le_add_iff_right]

theorem passing_error {cause : TokenFault} (n : Nat) (hkind : t.kind = .namespaceKeyword)
    (hnone : rest.find? (!·.isIgnorable) = none) :
    c.passing s events (t :: rest) (some cause) (n + 1) =
      (.error (.unreadable cause), c.showing s events) := by
  have hpassable : passable (t :: rest) (some cause) = [] := by
    rw [passable, Option.isSome_some, if_pos rfl, decided_cons, if_pos ⟨hkind, hnone⟩]
  simp [passing, hpassable]

/-- Passing tokens one after another is a run over those that can be passed. -/
theorem on_passFrom (hlenient : c.Lenient) {tokens : List Token} (h : c.Ahead index tokens fault)
    (hat : c.At before index s) {n : Nat} (hn : n ≤ c.range.stop - index) :
    (passFrom index n).on (c.showing s events) = c.passing s events tokens fault n := by
  induction h generalizing s events before n with
  | done hstop =>
    obtain rfl : n = 0 := by omega
    rw [passing_zero]
    rfl
  | @fault index raw fault hlt hraw hfault =>
    cases n with
    | zero =>
      rw [passing_zero]
      rfl
    | succ n =>
      unfold passFrom pass
      rw [on_bind, on_bind, on_fetch_fault hraw hfault, passing_nil]
  | @token index t rest fault hlt hstored hrest ih =>
    cases n with
    | zero =>
      rw [passing_zero]
      rfl
    | succ n =>
      have hpassed (hnext : t.kind = .namespaceKeyword →
          lookahead rest fault = .ok (rest.find? (!·.isIgnorable))) :
          (passFrom index (n + 1)).on (c.showing s events) =
            c.passing s events (t :: rest) fault (n + 1) := by
        have hpass : c.Follows (pass index) s events (s.step t rest) :=
          follows_pass hlenient hat hlt hstored hrest hnext
        rw [passFrom, on_bind, hpass, passing_cons n hnext]
        exact ih (hat.step hstored rest) (by omega)
      rcases lookahead_cases rest fault with hok | ⟨cause, rfl, hnone, herror⟩
      · exact hpassed fun _ => hok
      · by_cases hkind : t.kind = .namespaceKeyword
        · rw [passFrom, pass, on_bind, on_bind, on_fetch_stored hstored, passing_error n hkind hnone]
          dsimp only
          rw [on_bind, on_process_error hrest hkind herror]
        · exact hpassed fun h => absurd h hkind

theorem follows_forM_closeScope (hlenient : c.Lenient) (scopes : List Scope) (hscopes : s.scopes = scopes) :
    c.Follows (scopes.forM fun _ => closeScope c.range.stop) s events
      ({ s with scopes := [] }, s.finish (c.range.stop - 1)) := by
  induction scopes generalizing s events with
  | nil =>
    obtain ⟨scopes, pending, previous⟩ := s
    cases hscopes
    exact follows_pure
  | cons scope rest ih =>
    have hclose : c.Follows (closeScope c.range.stop) s events _ :=
      follows_closeScope_cons hlenient hscopes c.range.stop
    rw [Int.min_eq_right (by omega)] at hclose
    have hboth := hclose.bind (ih (s := { s with scopes := rest }) rfl)
    rw [Traversal.finish, hscopes]
    exact hboth

/-- Closing what is open at the end of the range. -/
theorem follows_closeAll (hlenient : c.Lenient) :
    c.Follows closeAll s events ({ s with scopes := [] }, s.finish (c.range.stop - 1)) := by
  have hclose : c.Follows _ s events _ := follows_forM_closeScope hlenient s.scopes rfl
  unfold Follows closeAll
  rw [on_bind, on_look]
  dsimp only
  rw [on_bind, on_look]
  exact hclose

theorem Ahead.length {tokens : List Token} (h : c.Ahead index tokens fault) :
    tokens.length ≤ c.range.stop - index ∧ (fault = none → tokens.length = c.range.stop - index) ∧
      (fault ≠ none → tokens.length < c.range.stop - index) := by
  induction h with
  | done hstop => simp; omega
  | fault hlt hraw hfault => simp; omega
  | token hlt hstored hrest ih =>
    obtain ⟨hle, hwhole, hbroken⟩ := ih
    refine ⟨?_, fun h => ?_, fun h => ?_⟩
    · simp only [List.length_cons]; omega
    · have := hwhole h
      simp only [List.length_cons]; omega
    · have := hbroken h
      simp only [List.length_cons]; omega

theorem take_limit {size : Nat} {tokens : List Token} (hle : tokens.length ≤ size) (limit : Option Nat) :
    tokens.take (limit.elim size (min size)) = limit.elim tokens fun n => tokens.take n := by
  cases limit with
  | none => exact List.take_of_length_le hle
  | some n =>
    rw [Option.elim_some, Option.elim_some, List.take_eq_take_iff]
    omega

/-- A limit and the number of tokens that are to be passed, against the number of those that can be. -/
theorem limit_cases {size length : Nat} (hle : length ≤ size) (limit : Option Nat) :
    (limit.any (· ≤ length) = true ∧ limit.elim size (min size) ≤ length ∧
        limit.any (· ≤ size) = true) ∨
      (limit.any (· ≤ length) = false ∧ (length < size → length < limit.elim size (min size)) ∧
        (length = size → limit.elim size (min size) ≤ length ∧ limit.any (· ≤ size) = false)) := by
  cases limit with
  | none => exact .inr ⟨rfl, id, fun h => ⟨h.ge, rfl⟩⟩
  | some n =>
    simp only [Option.any_some, decide_eq_true_eq, decide_eq_false_iff_not, Option.elim_some]
    omega

/-- A traversal of a cursor that has read everything, from its beginning. -/
theorem on_sweep (hlenient : c.Lenient) {readable : List Token}
    (h : c.Ahead c.range.first readable fault) (limit : Option Nat) :
    let outcome := visitRead limit readable fault (c.range.stop - 1)
    let r := (sweep limit).on (c.showing {} [])
    r.1 = outcome.2.fault.elim (.ok ()) (fun cause => .error (.unreadable cause)) ∧
      r.2.log = c.log ++ c.heard outcome.2.events ∧ r.2.scopes = outcome.1 := by
  have hstart : c.At [] c.range.first {} := ⟨rfl, by simp, rfl, by simp, by simp⟩
  obtain ⟨hle, hwhole, hbroken⟩ : readable.length ≤ c.range.size ∧
      (fault = none → readable.length = c.range.size) ∧
      (fault ≠ none → readable.length < c.range.size) := h.length
  have hprefix := (passable_isPrefix readable fault).length_le
  have hrun : (passFrom c.range.first (limit.elim c.range.size (min c.range.size))).on (c.showing {} []) =
      c.passing {} [] readable fault (limit.elim c.range.size (min c.range.size)) := by
    refine on_passFrom hlenient h hstart ?_
    cases limit with
    | none => exact Nat.le_refl _
    | some n => exact Nat.min_le_left _ _
  unfold visitRead sweep
  rw [on_bind, on_look, show (c.showing {} []).range = c.range from rfl]
  dsimp only
  rw [on_bind, hrun, passing, take_limit (Nat.le_trans hprefix hle), List.nil_append]
  generalize Traversal.run _ {} _ = after
  rcases limit_cases (Nat.le_trans hprefix hle) limit with
    ⟨hlimit, hfits, hends⟩ | ⟨hlimit, hshort, hfull⟩
  · rw [if_pos hlimit, if_pos hfits]
    simp only [hends, if_true]
    exact ⟨rfl, rfl, rfl⟩
  · cases fault with
    | some cause =>
      have hless := hshort (Nat.lt_of_le_of_lt hprefix (hbroken (Option.some_ne_none cause)))
      rw [hlimit, if_neg (Nat.not_le.mpr hless)]
      exact ⟨rfl, rfl, rfl⟩
    | none =>
      obtain ⟨hfits, hends⟩ := hfull (hwhole rfl)
      have hclose : c.Follows closeAll after.1 after.2 _ := follows_closeAll hlenient
      rw [hlimit, if_pos hfits]
      simp only [hends, Bool.false_eq_true, if_false]
      rw [hclose]
      exact ⟨rfl, rfl, rfl⟩

/-! ## Reading everything before -/

/-- Raw tokens with those of them that can be read replaced by the tokens at their positions. -/
def settled (tokens : List RawToken) : List RawToken :=
  tokens.mapIdx fun position raw =>
    match Token.ofRaw raw position with
    | .ok t => .token t
    | .error _ => raw

theorem map_ofRaw_settled (tokens : List RawToken) :
    (settled tokens).map Token.ofRaw = tokens.map Token.ofRaw := by
  refine List.ext_getElem? fun position => ?_
  simp only [settled, List.getElem?_map, List.getElem?_mapIdx, Option.map_map]
  refine Option.map_congr fun raw _ => ?_
  dsimp only [Function.comp_apply]
  cases hread : Token.ofRaw raw position with
  | error cause => rfl
  | ok t => exact Token.ofRaw_token_of_ofRaw hread

theorem getElem?_settled {tokens : List RawToken} {raw : RawToken} (h : tokens[index]? = some raw) :
    (settled tokens)[index]? = some (match Token.ofRaw raw index with
      | .ok t => .token t
      | .error _ => raw) := by
  rw [settled, List.getElem?_mapIdx, h]
  rfl

/-- A cursor that has read everything holds from a position on what is read there. -/
theorem ahead_readTokens {tokens : List RawToken} (hentries : c.entries = settled tokens)
    (hstop : c.range.stop ≤ tokens.length) (index : Nat) :
    let read := readTokens index ((tokens.take c.range.stop).drop index)
    c.Ahead index read.1 read.2 := by
  induction hn : c.range.stop - index generalizing index with
  | zero =>
    rw [List.drop_eq_nil_of_le (by rw [List.length_take]; omega)]
    exact .done (by omega)
  | succ n ih =>
    have hlt : index < c.range.stop := by omega
    have hin : index < (tokens.take c.range.stop).length := by
      rw [List.length_take]
      omega
    have hraw : tokens[index]? = some ((tokens.take c.range.stop)[index]) := by
      rw [List.getElem_take, List.getElem?_eq_getElem]
    have hstored := getElem?_settled hraw
    have hrest := ih (index + 1) (by omega)
    rw [List.drop_eq_getElem_cons hin, readTokens]
    cases hread : Token.ofRaw ((tokens.take c.range.stop)[index]) index with
    | error cause =>
      rw [hread] at hstored
      exact .fault hlt (hentries ▸ hstored) hread
    | ok t =>
      rw [hread] at hstored
      exact .token hlt ⟨hentries ▸ hstored, Token.index_ofRaw hread⟩ hrest

/-- On a range of the stream, and with a handler that takes every event or none at all, a traversal of a
cursor is that of a visitor of the raw tokens: it ends with the same fault or without one, reports the same
events, and leaves the same scopes open. -/
theorem visit_eq_visitor {c : Cursor} {tokens : List RawToken} (hread : c.readings = tokens.map Token.ofRaw)
    (hstop : c.range.stop ≤ tokens.length) (hlenient : c.Lenient) (limit : Option Nat) :
    let v : Visitor := ⟨tokens, c.range, c.scopes⟩
    let outcome := limit.elim v.traverse v.iterate
    let r := (visit limit).on c
    r.1 = outcome.2.fault.elim (.ok ()) (fun cause => .error (.unreadable cause)) ∧
      r.2.log = c.heard outcome.2.events ∧ r.2.scopes = outcome.1.scopes := by
  by_cases hbegins : limit = some 0
  · subst hbegins
    exact ⟨rfl, rfl, rfl⟩
  intro v outcome r
  have houtcome : outcome = v.visit limit := by
    cases limit with
    | none => rfl
    | some n => exact if_neg fun h => hbegins (congrArg some h)
  -- The comparison is made on the cursor that has read everything.
  let d : Cursor := { c with entries := settled tokens }
  have hsetup : d.setup = c.setup := by
    show ((settled tokens).map Token.ofRaw, _, _) = (c.readings, _, _)
    rw [map_ofRaw_settled, hread]
  have hahead : d.cleared.Ahead c.range.first _ _ :=
    ahead_readTokens (c := d.cleared) rfl hstop c.range.first
  obtain ⟨hfault, hlog, hscopes⟩ := on_sweep (c := d.cleared) hlenient hahead limit
  obtain ⟨hout, entries, -, hleft⟩ := visit_of_setup_eq hbegins hsetup
  rw [on_visit hbegins d] at hout hleft
  rw [houtcome, Visitor.visit_eq]
  refine ⟨hout.trans hfault, ?_, ?_⟩
  · show ((visit limit).on c).2.log = _
    rw [hleft]
    exact hlog
  · show ((visit limit).on c).2.scopes = _
    rw [hleft]
    exact hscopes

/-- Whatever was done with a cursor before, a traversal that nothing ends but the tokens is that of a visitor
of the raw tokens which the cursor was made of. -/
theorem visit_after_eq_visitor (tokens : List RawToken) (history : List CursorStep)
    (hlenient : ((ofTokens tokens).after history).Lenient) (limit : Option Nat) :
    let used := (ofTokens tokens).after history
    let v : Visitor := ⟨tokens, used.range, used.scopes⟩
    let outcome := limit.elim v.traverse v.iterate
    let r := (visit limit).on used
    r.1 = outcome.2.fault.elim (.ok ()) (fun cause => .error (.unreadable cause)) ∧
      r.2.log = used.heard outcome.2.events ∧ r.2.scopes = outcome.1.scopes := by
  have hstop := (within_after_ofTokens tokens history).bounded
  exact visit_eq_visitor (readings_after (ofTokens tokens) history) hstop hlenient limit

/-- A traversal after a history of steps does what it does for a new cursor on the raw tokens, with the
range and the handler that were set last: it ends in the same way, whole or not, reports the same, and
leaves the same scopes open. The tokens that it passes are those at the positions of the range in order, each
with its position as its index and with the kind, the text and the line of the raw token; none of them is
left out unless the traversal is abandoned or fails. It does not fail where the tokens of the range can be
read and the handler takes every event. -/
theorem visit_after (tokens : List RawToken) (history : List CursorStep) (limit : Option Nat) :
    let used := (ofTokens tokens).after history
    let unused := { ofTokens tokens with range := used.range, handler := used.handler }
    let again := (visit limit).on used
    let anew := (visit limit).on unused
    (again.1 = anew.1 ∧ again.2.log = anew.2.log ∧
      (limit ≠ some 0 → again.2.scopes = anew.2.scopes)) ∧
    (∀ n t, (passedTokens again.2.log)[n]? = some t →
      t.index = ((used.range.first + n : Nat) : Int) ∧ used.range.first + n < used.range.stop ∧
      ∃ raw, tokens[used.range.first + n]? = some raw ∧ raw.content? = some (t.kind, t.text, t.line)) ∧
    (again.1 = .ok () →
      (passedTokens again.2.log).length = limit.elim used.range.size (min used.range.size)) ∧
    (used.Lenient → (∀ raw ∈ used.range.slice tokens, raw.Readable) → again.1 = .ok ()) := by
  intro used unused again anew
  have hreadings : used.readings = tokens.map Token.ofRaw := readings_after (ofTokens tokens) history
  have hsetup : unused.setup = used.setup := by
    show (tokens.map Token.ofRaw, _, _) = (used.readings, _, _)
    rw [hreadings]
  obtain ⟨passed, hpassed⟩ := passes_visit limit used
  have hlog : passedTokens again.2.log = passed := hpassed.log
  refine ⟨shown_visit_of_setup_eq limit hsetup, fun n t h => ?_, fun hok => ?_,
    fun hlenient hreadable => ?_⟩
  · rw [hlog] at h
    have hn : n < used.range.size := by
      have hlt := (List.getElem?_eq_some_iff.mp h).1
      have hle := hpassed.length_le
      cases limit <;> simp at hle <;> omega
    have hstop : used.range.first + n < used.range.stop := by
      unfold TokenRange.size at hn
      omega
    obtain ⟨hindex, hcontent⟩ := content?_of_reads (c := used.cleared) hreadings (hpassed.reads n t h)
    exact ⟨hindex, hstop, hcontent⟩
  · exact hlog ▸ hpassed.length_eq hok
  · obtain ⟨hout, -, -⟩ := visit_after_eq_visitor tokens history hlenient limit
    rw [Visitor.fault_of_readable _ hreadable] at hout
    exact hout

/-- The last token was read from the end, and a traversal was abandoned with the scope of the file open and
with a class that waits for its block. The next traversal sees the five tokens at their positions and leaves
nothing open. -/
theorem visit_after_abandoned :
    let tokens : List RawToken := [.entry "T_OPEN_TAG" "<?php " 1, .token ⟨.classKeyword, "class", 1, 7⟩,
      .entry "T_STRING" "A" 1, .bare "\x7b", .bare "\x7d"]
    let history : List CursorStep :=
      [.setHandler (some fun _ => true), .token (-1), .visit (some 2), .setHandler none]
    let used := (ofTokens tokens).after history
    let again := (visit none).on used
    (used.scopes.length = 1 ∧ used.pending = some 1 ∧
      used.entries[4]? = some (.token ⟨.punctuation, "\x7d", -1, -1⟩)) ∧
    (none : Option Nat) ≠ some 0 ∧ used.Lenient ∧ (∀ raw ∈ used.range.slice tokens, raw.Readable) ∧
    again.1 = .ok () ∧ again.2.scopes = [] ∧ (passedTokens again.2.log).length = 5 ∧
    ∃ t, (passedTokens again.2.log)[4]? = some t ∧ t.index = 4 ∧ t.line = -1 := by
  intro tokens history
  dsimp only
  obtain ⟨⟨-, -, hscopes⟩, hpassed, hlength, hok⟩ := visit_after tokens history none
  have hbegins : (none : Option Nat) ≠ some 0 := by decide
  have hlast : (passedTokens ((visit none).on ((ofTokens tokens).after history)).2.log)[4]? =
      some ⟨.punctuation, "\x7d", -1, 4⟩ := by decide +kernel
  have hhandler : ((ofTokens tokens).after history).handler.isSome = false := by decide +kernel
  have hlenient : ((ofTokens tokens).after history).Lenient := fun takes log h => by
    rw [h] at hhandler
    cases hhandler
  have hrange : ((ofTokens tokens).after history).range = ⟨0, 5⟩ := by decide +kernel
  have hindex := (hpassed 4 _ hlast).1
  rw [hrange] at hindex hlength hok ⊢
  have hreadable : ∀ raw ∈ TokenRange.slice ⟨0, 5⟩ tokens, raw.Readable := by
    show ∀ raw ∈ tokens, raw.Readable
    simp only [tokens, List.forall_mem_cons]
    refine ⟨?_, ?_, ?_, ?_, ?_, List.forall_mem_nil _⟩ <;> exact fun index => ⟨_, rfl⟩
  have hvisited := hok hlenient hreadable
  exact ⟨by decide +kernel, hbegins, hlenient, hreadable, hvisited,
    (hscopes hbegins).trans (by decide +kernel), hlength hvisited, _, hlast, hindex, rfl⟩

end Cursor
end Reflection
