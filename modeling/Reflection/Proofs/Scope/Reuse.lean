import Mathlib.Data.List.Basic
import Reflection.Proofs.Scope.Nesting
import Reflection.Scope.Cursor

/-!
# Cursors that were used before

A cursor stores what it reads, under the index it read it with, and a traversal that ends before its time
leaves open scopes and a waiting keyword behind. Neither shows in a later traversal. A stored token is read
again with the index that is asked for, so it reads as the raw token did; whatever a computation finds in a
cursor it finds through reading, so it cannot tell two cursors apart whose tokens read the same; and the rest
of the state is what a traversal begins by setting.

## Main definitions

* `Cursor.readings`: what the stored tokens read as.
* `Cursor.Alike`: two cursors differ in how their tokens are stored.
* `CursorM.Faithful`, `CursorM.Quiet`: a computation does the same on cursors that are alike and keeps what
  they read; a quiet one passes no token.
* `Cursor.Passes`: the tokens that are passed on the way to an outcome.

## Main statements

* `Cursor.faithful_visit`: a traversal is faithful, whatever the handler does.
* `Cursor.passes_passFrom`: the tokens that are passed stand at the positions of the range, in order.
* `Cursor.visit_of_setup_eq`: what a traversal does depends on what the tokens read as, the range and the
  handler.
* `Cursor.readings_after`: no history of steps changes what the tokens read as.
-/
namespace Reflection

/-- Kind, text and line that a raw token stands for. -/
def RawToken.content? : RawToken → Option (TokenKind × String × Int)
  | token t => some (t.kind, t.text, t.line)
  | entry label text line => (TokenKind.ofLabel? label).map (·, text, line)
  | bare text => some (.punctuation, text, -1)
  | misshapen => none

/-- The tokens that were passed, in order. -/
def passedTokens (events : List Event) : List Token :=
  events.filterMap fun
    | .passed t _ => some t
    | _ => none

@[simp] theorem passedTokens_append (events later : List Event) :
    passedTokens (events ++ later) = passedTokens events ++ passedTokens later :=
  List.filterMap_append

/-! ## Reading -/

theorem Token.content?_of_ofRaw {raw : RawToken} {index : Int} {t : Token}
    (h : Token.ofRaw raw index = .ok t) : raw.content? = some (t.kind, t.text, t.line) := by
  unfold Token.ofRaw at h
  split at h
  · cases h
    rfl
  · cases h
    rfl
  · split at h <;> cases h
    simp [RawToken.content?, *]
  · cases h

/-- A token reads as what it was read from. -/
theorem Token.ofRaw_token_of_ofRaw {raw : RawToken} {index : Int} {t : Token}
    (h : Token.ofRaw raw index = .ok t) : Token.ofRaw (.token t) = Token.ofRaw raw := by
  unfold Token.ofRaw at h
  split at h
  · cases h
    rfl
  · cases h
    rfl
  · split at h <;> cases h
    funext index'
    simp [Token.ofRaw, *]
  · cases h

namespace Cursor

theorem locate?_map {α β : Type} (f : α → β) (xs : List α) (index : Int) :
    locate? (xs.map f) index = (locate? xs index).map (Prod.map id f) := by
  unfold locate?
  simp only [List.length_map, List.getElem?_map]
  generalize (if index < 0 then index + (xs.length : Int) else index) = position
  split
  · rfl
  · rw [Option.map_map, Option.map_map]
    rfl

theorem getElem?_of_locate? {α : Type} {xs : List α} {index : Int} {position : Nat} {x : α}
    (h : locate? xs index = some (position, x)) : xs[position]? = some x := by
  unfold locate? at h
  dsimp only at h
  split_ifs at h
  all_goals
    obtain ⟨y, hy, heq⟩ := Option.map_eq_some_iff.mp h
    cases heq
    exact hy

theorem locate?_natCast {α : Type} (xs : List α) (position : Nat) :
    locate? xs (position : Int) = xs[position]?.map (position, ·) := by
  simp [locate?, Int.not_lt.mpr (Int.natCast_nonneg position)]

/-- What the stored tokens read as, at whatever index. -/
def readings (c : Cursor) : List (Int → Except TokenFault Token) := c.entries.map Token.ofRaw

/-- The second cursor is the first one with other entries that read the same. -/
def Alike (c d : Cursor) : Prop :=
  ∃ entries, entries.map Token.ofRaw = c.readings ∧ d = { c with entries }

/-- Storing a token where it was read keeps what the entries read as. -/
theorem map_ofRaw_set {entries : List RawToken} {position : Nat} {raw : RawToken} {index : Int} {t : Token}
    (hraw : entries[position]? = some raw) (ht : Token.ofRaw raw index = .ok t) :
    (entries.set position (.token t)).map Token.ofRaw = entries.map Token.ofRaw := by
  have hread : (entries.map Token.ofRaw)[position]? = some (Token.ofRaw raw) := by
    rw [List.getElem?_map, hraw]
    rfl
  obtain ⟨hlt, heq⟩ := List.getElem?_eq_some_iff.mp hread
  rw [List.map_set, Token.ofRaw_token_of_ofRaw ht, ← heq, List.set_getElem_self]

/-- What a traversal is set up with: what its tokens read as, its range and its handler. -/
def setup (c : Cursor) :
    List (Int → Except TokenFault Token) × TokenRange × Option (List Event → Bool) :=
  (c.readings, c.range, c.handler)

end Cursor

/-! ## Computations -/

namespace CursorM

variable {α β : Type}

@[simp] theorem on_pure (a : α) (c : Cursor) : CursorM.on (pure a) c = (.ok a, c) := rfl

@[simp] theorem on_look (f : Cursor → α) (c : Cursor) : (Cursor.look f).on c = (.ok (f c), c) := rfl

@[simp] theorem on_modify (f : Cursor → Cursor) (c : Cursor) :
    CursorM.on (modify f) c = (.ok (), f c) := rfl

theorem on_bind (m : CursorM α) (next : α → CursorM β) (c : Cursor) :
    (m >>= next).on c =
      match m.on c with
      | (.ok a, d) => (next a).on d
      | (.error fault, d) => (.error fault, d) := by
  rcases h : m.on c with ⟨_ | a, d⟩
  · have hrun : m.run.run c = _ := h
    simp only [CursorM.on, ExceptT.run_bind, StateT.run_bind, hrun]
    rfl
  · have hrun : m.run.run c = _ := h
    simp only [CursorM.on, ExceptT.run_bind, StateT.run_bind, hrun]
    rfl

/-- A computation does the same on cursors that are alike, and keeps what a traversal is set up with. -/
structure Faithful (m : CursorM α) : Prop where
  alike (c d : Cursor) (h : c.Alike d) : (m.on d).1 = (m.on c).1 ∧ (m.on c).2.Alike (m.on d).2
  setup (c : Cursor) : (m.on c).2.setup = c.setup

/-- A computation is faithful and passes no token. -/
structure Quiet (m : CursorM α) : Prop extends Faithful m where
  passed (c : Cursor) : passedTokens (m.on c).2.log = passedTokens c.log

theorem Quiet.pure (a : α) : Quiet (pure a : CursorM α) where
  alike _ _ h := ⟨rfl, h⟩
  setup _ := rfl
  passed _ := rfl

theorem Quiet.throw (fault : CursorFault) : Quiet (throw fault : CursorM α) where
  alike _ _ h := ⟨rfl, h⟩
  setup _ := rfl
  passed _ := rfl

/-- Looking at anything but the entries. -/
theorem Quiet.look {f : Cursor → α} (h : ∀ c entries, f { c with entries } = f c) :
    Quiet (Cursor.look f) where
  alike c d hd := by
    obtain ⟨entries, hentries, rfl⟩ := hd
    exact ⟨congrArg Except.ok (h c entries), entries, hentries, rfl⟩
  setup _ := rfl
  passed _ := rfl

/-- Changing anything but the entries, the range and the handler. -/
theorem Faithful.modify {f : Cursor → Cursor}
    (h : ∀ c entries, f { c with entries } = { f c with entries }) (hsetup : ∀ c, (f c).setup = c.setup) : Faithful (modify f : CursorM Unit) where
  alike c d hd := by
    obtain ⟨entries, hentries, rfl⟩ := hd
    exact ⟨rfl, entries, hentries.trans (congrArg Prod.fst (hsetup c)).symm, h c entries⟩
  setup := hsetup

theorem Quiet.modify {f : Cursor → Cursor}
    (h : ∀ c entries, f { c with entries } = { f c with entries }) (hsetup : ∀ c, (f c).setup = c.setup) (hlog : ∀ c, (f c).log = c.log) :
    Quiet (modify f : CursorM Unit) where
  toFaithful := .modify h hsetup
  passed c := congrArg passedTokens (hlog c)

theorem Faithful.bind {m : CursorM α} {next : α → CursorM β} (hm : m.Faithful)
    (hnext : ∀ a, (next a).Faithful) : (m >>= next).Faithful where
  alike c d h := by
    obtain ⟨hout, hleft⟩ := hm.alike c d h
    rw [on_bind, on_bind]
    rcases hc : m.on c with ⟨_ | a, c'⟩ <;> rcases hd : m.on d with ⟨_ | a', d'⟩ <;>
      rw [hc, hd] at hout hleft <;> cases hout
    · exact ⟨rfl, hleft⟩
    · exact (hnext a).alike c' d' hleft
  setup c := by
    have hkept := hm.setup c
    rw [on_bind]
    rcases hc : m.on c with ⟨_ | a, c'⟩ <;> rw [hc] at hkept
    · exact hkept
    · exact ((hnext a).setup c').trans hkept

theorem Quiet.bind {m : CursorM α} {next : α → CursorM β} (hm : m.Quiet)
    (hnext : ∀ a, (next a).Quiet) : (m >>= next).Quiet where
  toFaithful := hm.toFaithful.bind fun a => (hnext a).toFaithful
  passed c := by
    have hkept := hm.passed c
    rw [on_bind]
    rcases hc : m.on c with ⟨_ | a, c'⟩ <;> rw [hc] at hkept
    · exact hkept
    · exact ((hnext a).passed c').trans hkept

end CursorM

/-! ## What a cursor does -/

namespace Cursor
open CursorM

theorem on_fetch (index : Int) (c : Cursor) :
    (fetch index).on c =
      match locate? c.entries index with
      | none => (.error (.outside index), c)
      | some (position, raw) =>
        match Token.ofRaw raw index with
        | .error fault => (.error (.unreadable fault), c)
        | .ok t => (.ok t, { c with entries := c.entries.set position (.token t) }) := by
  unfold fetch
  rw [on_bind, on_look]
  dsimp only
  rcases locate? c.entries index with _ | ⟨position, raw⟩
  · rfl
  · dsimp only
    cases Token.ofRaw raw index <;> rfl

/-- Reading finds on entries that read the same the same token at the same position. -/
theorem locate?_of_map_eq {entries entries' : List RawToken}
    (h : entries'.map Token.ofRaw = entries.map Token.ofRaw) (index : Int) :
    (locate? entries' index = none ∧ locate? entries index = none) ∨
      ∃ position raw raw', locate? entries' index = some (position, raw') ∧
        locate? entries index = some (position, raw) ∧ Token.ofRaw raw' = Token.ofRaw raw := by
  have hlocate := congrArg (locate? · index) h
  simp only [locate?_map] at hlocate
  rcases hnew : locate? entries' index with _ | ⟨position', raw'⟩ <;>
    rcases hold : locate? entries index with _ | ⟨position, raw⟩ <;>
    simp only [hnew, hold, Option.map_none, Option.map_some, reduceCtorEq, Option.some.injEq,
      Prod.map_apply, id_eq, Prod.mk.injEq] at hlocate
  · exact .inl ⟨rfl, rfl⟩
  · obtain ⟨rfl, hread⟩ := hlocate
    exact .inr ⟨position', raw, raw', rfl, rfl, hread⟩

/-- Reading stores what it reads, and nothing that reads otherwise. -/
theorem quiet_fetch (index : Int) : (fetch index).Quiet where
  alike c d h := by
    obtain ⟨entries, hentries, rfl⟩ := h
    rw [on_fetch, on_fetch]
    dsimp only
    rcases locate?_of_map_eq hentries index with
      ⟨hnew, hold⟩ | ⟨position, raw, raw', hnew, hold, hread⟩
    · rw [hnew, hold]
      exact ⟨rfl, entries, hentries, rfl⟩
    · rw [hnew, hold]
      dsimp only
      rw [hread]
      cases ht : Token.ofRaw raw index with
      | error fault => exact ⟨rfl, entries, hentries, rfl⟩
      | ok t =>
        have hset := map_ofRaw_set (getElem?_of_locate? hold) ht
        have hset' := map_ofRaw_set (getElem?_of_locate? hnew) (hread ▸ ht)
        exact ⟨rfl, entries.set position (.token t), hset'.trans (hentries.trans hset.symm), rfl⟩
  setup c := by
    rw [on_fetch]
    rcases hlocate : locate? c.entries index with _ | ⟨position, raw⟩
    · rfl
    · dsimp only
      cases ht : Token.ofRaw raw index with
      | error fault => rfl
      | ok t =>
        have hset := map_ofRaw_set (getElem?_of_locate? hlocate) ht
        exact Prod.ext hset rfl
  passed c := by
    rw [on_fetch]
    rcases locate? c.entries index with _ | ⟨position, raw⟩
    · rfl
    · dsimp only
      cases Token.ofRaw raw index <;> rfl

theorem quiet_lastSignificant? (first n : Nat) : (lastSignificant? first n).Quiet := by
  induction n with
  | zero => exact .pure none
  | succ n ih =>
    refine .bind (quiet_fetch _) fun t => ?_
    split
    · exact ih
    · exact .pure (some t)

theorem quiet_nextSignificant? (index n : Nat) : (nextSignificant? index n).Quiet := by
  induction n generalizing index with
  | zero => exact .pure none
  | succ n ih =>
    refine .bind (quiet_fetch _) fun t => ?_
    split
    · exact ih (index + 1)
    · exact .pure (some t)

theorem quiet_waiting? : waiting?.Quiet := by
  refine .bind (.look fun _ _ => rfl) fun pending => ?_
  cases pending with
  | none => exact .pure none
  | some position => exact .bind (quiet_fetch position) fun t => .pure (some t)

theorem faithful_note (event : Event) : (note event).Faithful :=
  .modify (fun _ _ => rfl) fun _ => rfl

theorem quiet_note {event : Event} (h : passedTokens [event] = []) : (note event).Quiet where
  toFaithful := faithful_note event
  passed c := by
    show passedTokens (c.log ++ [event]) = _
    rw [passedTokens_append, h, List.append_nil]

theorem quiet_report {event : Event} (h : passedTokens [event] = []) : (report event).Quiet := by
  refine .bind (.look fun _ _ => rfl) fun handler => ?_
  cases handler with
  | none => exact .pure ()
  | some takes =>
    refine .bind (quiet_note h) fun _ => .bind (.look fun _ _ => rfl) fun log => ?_
    split
    · exact .pure ()
    · exact .throw _

theorem quiet_await (position : Option Nat) : (await position).Quiet :=
  .modify (fun _ _ => rfl) (fun _ => rfl) fun _ => rfl

theorem quiet_openScope (index : Nat) (braceless : Bool) : (openScope index braceless).Quiet := by
  refine .bind (.look fun _ _ => rfl) fun scopes => .bind quiet_waiting? fun owner => ?_
  exact .bind (.modify (fun _ _ => rfl) (fun _ => rfl) fun _ => rfl) fun _ => quiet_report rfl

theorem quiet_closeScope (last : Int) : (closeScope last).Quiet := by
  refine .bind (.look fun _ _ => rfl) fun scopes => ?_
  cases scopes with
  | nil => exact quiet_note rfl
  | cons scope rest =>
    refine .bind (.modify (fun _ _ => rfl) (fun _ => rfl) fun _ => rfl) fun _ => ?_
    exact .bind (.look fun _ _ => rfl) fun range => quiet_report rfl

theorem quiet_closeBraceless (index : Nat) : (closeBraceless index).Quiet := by
  refine .bind (.look fun _ _ => rfl) fun scopes => ?_
  cases scopes with
  | nil => exact .pure ()
  | cons scope rest =>
    dsimp only
    split
    · exact quiet_closeScope _
    · exact .pure ()

theorem quiet_terminate (index : Nat) : (terminate index).Quiet := by
  refine .bind quiet_waiting? fun owner => ?_
  split
  · exact quiet_openScope index true
  · exact quiet_await none
  · exact .pure ()

/-- The effect of a token is faithful, and the token is not passed by it yet. -/
theorem quiet_process (index : Nat) (t : Token) : (process index t).Quiet := by
  refine .bind (.look fun _ _ => rfl) fun scopes => .bind (.look fun _ _ => rfl) fun range => ?_
  split
  · split
    · exact .bind (quiet_await _) fun _ => quiet_openScope index false
    · exact .pure ()
  · refine .bind (quiet_nextSignificant? _ _) fun next => ?_
    split
    · exact .pure ()
    · exact .bind (quiet_closeBraceless index) fun _ => quiet_await _
  · exact quiet_await _
  · exact quiet_await _
  · refine .bind (quiet_lastSignificant? _ _) fun previous => ?_
    split
    · exact .pure ()
    · exact quiet_await _
  · split
    · exact quiet_await _
    · exact .pure ()
  · split
    · exact quiet_terminate index
    · split
      · exact quiet_openScope index false
      · split
        · exact quiet_closeScope index
        · exact .pure ()
  · exact .pure ()

theorem faithful_pass (index : Nat) : (pass index).Faithful := by
  refine .bind (quiet_fetch index).toFaithful fun t => ?_
  refine .bind (quiet_process index t).toFaithful fun _ => ?_
  exact .bind (Quiet.look fun _ _ => rfl).toFaithful fun scopes => faithful_note _

theorem faithful_passFrom (index n : Nat) : (passFrom index n).Faithful := by
  induction n generalizing index with
  | zero => exact (Quiet.pure ()).toFaithful
  | succ n ih => exact .bind (faithful_pass index) fun _ => ih (index + 1)

theorem quiet_closeAll : closeAll.Quiet := by
  refine .bind (.look fun _ _ => rfl) fun scopes => .bind (.look fun _ _ => rfl) fun range => ?_
  induction scopes with
  | nil => exact .pure ()
  | cons scope rest ih => exact .bind (quiet_closeScope range.stop) fun _ => ih

theorem quiet_reset : reset.Quiet := .modify (fun _ _ => rfl) (fun _ => rfl) fun _ => rfl

theorem quiet_ending (abandoned : Bool) : CursorM.Quiet (unless abandoned do closeAll) := by
  cases abandoned
  · exact quiet_closeAll
  · exact .pure ()

theorem faithful_sweep (limit : Option Nat) : (sweep limit).Faithful := by
  refine .bind (Quiet.look fun _ _ => rfl).toFaithful fun range => ?_
  exact .bind (faithful_passFrom _ _) fun _ => (quiet_ending _).toFaithful

/-- A traversal is faithful, whatever the handler does and wherever it ends. -/
theorem faithful_visit (limit : Option Nat) : (visit limit).Faithful := by
  refine .bind (.modify (fun _ _ => rfl) fun _ => rfl) fun _ => ?_
  split
  · exact (Quiet.pure ()).toFaithful
  · exact .bind quiet_reset.toFaithful fun _ => faithful_sweep limit

/-! ## What is passed -/

/-- The token at a position, with that position as its index. -/
def Reads (c : Cursor) (position : Nat) (t : Token) : Prop :=
  ∃ read, c.readings[position]? = some read ∧ read position = .ok t

theorem reads_congr {c d : Cursor} (h : c.setup = d.setup) (position : Nat) (t : Token) :
    c.Reads position t ↔ d.Reads position t := by
  have hreadings : c.readings = d.readings := congrArg Prod.fst h
  rw [Reads, Reads, hreadings]

theorem reads_of_fetch {position : Nat} {c d : Cursor} {t : Token}
    (h : (fetch position).on c = (.ok t, d)) : c.Reads position t := by
  rw [on_fetch] at h
  rcases hlocate : locate? c.entries position with _ | ⟨position', raw⟩ <;> rw [hlocate] at h
  · cases h
  · dsimp only at h
    cases ht : Token.ofRaw raw position with
    | error fault => rw [ht] at h; cases h
    | ok t' =>
      rw [ht] at h
      cases h
      rw [locate?_natCast] at hlocate
      obtain ⟨raw', hraw, heq⟩ := Option.map_eq_some_iff.mp hlocate
      cases heq
      exact ⟨Token.ofRaw raw, by rw [readings, List.getElem?_map, hraw]; rfl, ht⟩

/-- A token that is read has its position as its index, and the kind, the text and the line of the raw
token. -/
theorem content?_of_reads {c : Cursor} {tokens : List RawToken}
    (hreadings : c.readings = tokens.map Token.ofRaw) {position : Nat} {t : Token}
    (h : c.Reads position t) :
    t.index = position ∧
      ∃ raw, tokens[position]? = some raw ∧ raw.content? = some (t.kind, t.text, t.line) := by
  obtain ⟨read, hread, ht⟩ := h
  rw [hreadings, List.getElem?_map] at hread
  obtain ⟨raw, hraw, rfl⟩ := Option.map_eq_some_iff.mp hread
  exact ⟨Token.index_ofRaw ht, raw, hraw, Token.content?_of_ofRaw ht⟩

/-- A token is passed if nothing fails, and none otherwise. -/
theorem passed_pass (index : Nat) (c : Cursor) :
    match (pass index).on c with
    | (.ok _, d) => ∃ t, c.Reads index t ∧ passedTokens d.log = passedTokens c.log ++ [t]
    | (.error _, d) => passedTokens d.log = passedTokens c.log := by
  have hread := (quiet_fetch index).passed c
  unfold pass
  rw [on_bind]
  rcases hfetch : (fetch index).on c with ⟨_ | t, c'⟩ <;> rw [hfetch] at hread
  · exact hread
  · have hprocess := (quiet_process index t).passed c'
    dsimp only
    rw [on_bind]
    rcases hc : (process index t).on c' with ⟨_ | u, d⟩ <;> rw [hc] at hprocess
    · exact hprocess.trans hread
    · refine ⟨t, reads_of_fetch hfetch, ?_⟩
      show passedTokens (d.log ++ [_]) = _
      rw [passedTokens_append, hprocess, hread]
      rfl

/-- From the cursor to the outcome `r`, the tokens at the positions from `index` on are passed in order, not
more than `n` of them, and so many unless something fails. -/
structure Passes (c : Cursor) (index n : Nat) (r : Except CursorFault Unit × Cursor)
    (tokens : List Token) : Prop where
  log : passedTokens r.2.log = passedTokens c.log ++ tokens
  reads (k : Nat) (t : Token) (h : tokens[k]? = some t) : c.Reads (index + k) t
  length_le : tokens.length ≤ n
  length_eq (h : r.1 = .ok ()) : tokens.length = n

theorem passes_passFrom (index n : Nat) (c : Cursor) :
    ∃ tokens, c.Passes index n ((passFrom index n).on c) tokens := by
  induction n generalizing index c with
  | zero => exact ⟨[], (List.append_nil _).symm, by simp, Nat.le_refl 0, fun _ => rfl⟩
  | succ n ih =>
    have hpass := passed_pass index c
    have hsetup := (faithful_pass index).setup c
    unfold passFrom
    rw [on_bind]
    rcases hc : (pass index).on c with ⟨fault | u, d⟩ <;> rw [hc] at hpass hsetup
    · exact ⟨[], hpass.trans (List.append_nil _).symm, by simp, Nat.zero_le _, by simp⟩
    · obtain ⟨t, ht, hlog⟩ := hpass
      obtain ⟨tokens, hrest⟩ := ih (index + 1) d
      refine ⟨t :: tokens, ?_, fun k u hu => ?_, Nat.succ_le_succ hrest.length_le,
        fun hok => congrArg (· + 1) (hrest.length_eq hok)⟩
      · dsimp only
        rw [hrest.log, hlog, List.append_assoc]
        rfl
      · cases k with
        | zero =>
          cases hu
          exact ht
        | succ k =>
          have hk := (reads_congr hsetup _ u).mp (hrest.reads k u hu)
          rwa [Nat.add_assoc, Nat.add_comm 1 k] at hk

theorem passes_sweep (limit : Option Nat) (c : Cursor) :
    ∃ tokens, c.Passes c.range.first (limit.elim c.range.size (min c.range.size))
      ((sweep limit).on c) tokens := by
  obtain ⟨tokens, hpasses⟩ :=
    passes_passFrom c.range.first (limit.elim c.range.size (min c.range.size)) c
  unfold sweep
  rw [on_bind, on_look]
  dsimp only
  rw [on_bind]
  rcases hc : (passFrom c.range.first _).on c with ⟨fault | u, d⟩ <;> rw [hc] at hpasses
  · exact ⟨tokens, hpasses⟩
  · have hend := (quiet_ending (limit.any (· ≤ c.range.size))).passed d
    exact ⟨tokens, hend.trans hpasses.log, hpasses.reads, hpasses.length_le,
      fun _ => hpasses.length_eq rfl⟩

/-! ## Beginning again -/

/-- The cursor as a traversal begins with it. -/
def cleared (c : Cursor) : Cursor := { c with scopes := [], pending := none, log := [] }

theorem on_visit {limit : Option Nat} (hbegins : limit ≠ some 0) (c : Cursor) :
    (visit limit).on c = (sweep limit).on c.cleared := by
  unfold visit
  rw [on_bind, on_modify]
  dsimp only
  rw [if_neg hbegins, on_bind, reset, on_modify]
  rfl

theorem Alike.cleared {c d : Cursor} (h : c.setup = d.setup) : c.cleared.Alike d.cleared := by
  obtain ⟨entries, range, handler, scopes, pending, log⟩ := c
  obtain ⟨entries', range', handler', scopes', pending', log'⟩ := d
  obtain ⟨hreadings, hrest⟩ := Prod.mk.inj h
  obtain ⟨rfl, rfl⟩ := Prod.mk.inj hrest
  exact ⟨entries', hreadings.symm, rfl⟩

/-- What a traversal does depends on what the tokens read as, on the range and on the handler. -/
theorem visit_of_setup_eq {limit : Option Nat} (hbegins : limit ≠ some 0) {c d : Cursor}
    (h : c.setup = d.setup) :
    ((visit limit).on d).1 = ((visit limit).on c).1 ∧
      ((visit limit).on c).2.Alike ((visit limit).on d).2 := by
  rw [on_visit hbegins, on_visit hbegins]
  exact (faithful_sweep limit).alike _ _ (Alike.cleared h)

/-- What a traversal shows of itself: how it ends, what it reports, and what it leaves open unless it does
not begin. -/
theorem shown_visit_of_setup_eq (limit : Option Nat) {c d : Cursor} (h : c.setup = d.setup) :
    ((visit limit).on d).1 = ((visit limit).on c).1 ∧
      ((visit limit).on d).2.log = ((visit limit).on c).2.log ∧
      (limit ≠ some 0 → ((visit limit).on d).2.scopes = ((visit limit).on c).2.scopes) := by
  by_cases hbegins : limit = some 0
  · subst hbegins
    exact ⟨rfl, rfl, fun h => absurd rfl h⟩
  · obtain ⟨hout, entries, -, hleft⟩ := visit_of_setup_eq hbegins h
    exact ⟨hout, by rw [hleft], fun _ => by rw [hleft]⟩

theorem passes_visit (limit : Option Nat) (c : Cursor) :
    ∃ tokens, c.cleared.Passes c.range.first (limit.elim c.range.size (min c.range.size))
      ((visit limit).on c) tokens := by
  by_cases hbegins : limit = some 0
  · subst hbegins
    exact ⟨[], rfl, by simp, Nat.zero_le _, fun _ => (Nat.min_zero _).symm⟩
  · rw [on_visit hbegins]
    exact passes_sweep limit c.cleared

/-! ## Histories -/

/-- No step changes what the tokens read as, not even one that fails. -/
theorem readings_perform (step : CursorStep) (c : Cursor) :
    (step.perform.on c).2.readings = c.readings := by
  have hrange (range : Except VisitFault TokenRange) :
      ((setRange range).on c).2.readings = c.readings := by
    cases range <;> rfl
  cases step with
  | visit limit => exact congrArg Prod.fst ((faithful_visit limit).setup c)
  | token index =>
    have hfetch := (Quiet.bind (quiet_fetch index) fun t => .pure ()).setup c
    exact congrArg Prod.fst hfetch
  | setFirst offset => exact hrange (.ok (c.range.setFirst c.entries.length offset))
  | setStop offset => exact hrange (.ok (c.range.setStop c.entries.length offset))
  | setBetween start stop => exact hrange (TokenRange.between c.entries.length start stop)
  | setHandler handler => rfl
  | setUncallable => rfl

theorem readings_after (c : Cursor) (history : List CursorStep) :
    (c.after history).readings = c.readings := by
  induction history generalizing c with
  | nil => rfl
  | cons step rest ih => exact (ih _).trans (readings_perform step c)

end Cursor
end Reflection
