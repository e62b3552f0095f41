import Mathlib.Tactic.SplitIfs
import Reflection.Proofs.Scope.Step
import Reflection.Scope.Visitor

/-!
# Traversals of a part of a stream

A traversal looks at the kinds and texts of tokens and copies their positions: it compares no position
with another one. When all tokens stand further on by the same distance, so does everything that it
reports. A range of a stream is therefore traversed like a stream of its own, although tokens before
the range and after it are there to be looked at.

## Main definitions

* `Token.shift`, `Scope.shift`, `Event.shift`, `Traversal.shift`, `Visit.shift`: the same further on.

## Main statements

* `Traversal.run_shift`: a run over tokens further on.
* `traverse_restrict`: a restricted range and the part of the stream that it covers.
-/
namespace Reflection

/-! ## Positions further on -/

/-- The token, `k` positions further on. -/
def Token.shift (k : Int) (t : Token) : Token := { t with index := t.index + k }

/-- The scope, `k` positions further on, and with it the tokens that own it and its parent. -/
def Scope.shift (k : Int) (s : Scope) : Scope :=
  { s with
    parent := s.parent.map (Token.shift k)
    owner := s.owner.map (Token.shift k)
    first := s.first + k
    last := s.last.map (· + k) }

/-- The event, `k` positions further on. -/
def Event.shift (k : Int) : Event → Event
  | opened s => opened (s.shift k)
  | closed s => closed (s.shift k)
  | unbalanced index => unbalanced (index + k)
  | passed t s => passed (t.shift k) (s.map (Scope.shift k))

/-- The state of a traversal, `k` positions further on. -/
def Traversal.shift (k : Int) (s : Traversal) : Traversal :=
  { s with scopes := s.scopes.map (Scope.shift k), pending := s.pending.map (Token.shift k) }

/-- The outcome of a traversal, `k` positions further on. -/
def Visit.shift (k : Int) (v : Visit) : Visit := { v with events := v.events.map (Event.shift k) }

variable (k : Int)

@[simp] theorem Token.kind_shift (t : Token) : (t.shift k).kind = t.kind := rfl

@[simp] theorem Token.text_shift (t : Token) : (t.shift k).text = t.text := rfl

@[simp] theorem Token.index_shift (t : Token) : (t.shift k).index = t.index + k := rfl

@[simp] theorem Token.isIgnorable_shift (t : Token) : (t.shift k).isIgnorable = t.isIgnorable := rfl

theorem Token.isIgnorable_comp_shift : Token.isIgnorable ∘ Token.shift k = Token.isIgnorable := rfl

@[simp] theorem Scope.owner_shift (s : Scope) : (s.shift k).owner = s.owner.map (Token.shift k) := rfl

@[simp] theorem Scope.braceless_shift (s : Scope) : (s.shift k).braceless = s.braceless := rfl

@[simp] theorem Scope.ownerKind?_shift (s : Scope) : (s.shift k).ownerKind? = s.ownerKind? := by
  simp [Scope.ownerKind?, Function.comp_def]

theorem Scope.close_shift (s : Scope) (last : Int) :
    (s.shift k).close (last + k) = (s.close last).shift k := rfl

namespace Traversal

@[simp] theorem scopes_shift (s : Traversal) :
    (s.shift k).scopes = s.scopes.map (Scope.shift k) := rfl

@[simp] theorem pending_shift (s : Traversal) :
    (s.shift k).pending = s.pending.map (Token.shift k) := rfl

@[simp] theorem previous_shift (s : Traversal) : (s.shift k).previous = s.previous := rfl

@[simp] theorem current?_shift (s : Traversal) :
    (s.shift k).current? = s.current?.map (Scope.shift k) := by
  simp [current?]

/-- A state and the events that led to it, `k` positions further on. -/
abbrev shiftBoth : Traversal × List Event → Traversal × List Event :=
  Prod.map (Traversal.shift k) (List.map (Event.shift k))

/-! ## One step -/

theorem openScope_shift (s : Traversal) (index : Int) (braceless : Bool) :
    (s.shift k).openScope (index + k) braceless = shiftBoth k (s.openScope index braceless) := by
  have hparent : (s.shift k).current?.bind Scope.owner =
      (s.current?.bind Scope.owner).map (Token.shift k) := by
    rw [current?_shift]
    cases s.current? <;> rfl
  simp only [openScope, hparent, scopes_shift, List.length_map]
  rfl

theorem closeScope_shift (s : Traversal) (last : Int) :
    (s.shift k).closeScope (last + k) = shiftBoth k (s.closeScope last) := by
  obtain ⟨scopes, pending, previous⟩ := s
  cases scopes <;> rfl

theorem closeBraceless_shift (s : Traversal) (index : Int) :
    (s.shift k).closeBraceless (index + k) = shiftBoth k (s.closeBraceless index) := by
  obtain ⟨scopes, pending, previous⟩ := s
  cases scopes with
  | nil => rfl
  | cons scope rest =>
    have hindex : index + k - 1 = index - 1 + k := by omega
    simp only [closeBraceless, scopes_shift, List.map_cons, Scope.braceless_shift, hindex]
    split
    · exact closeScope_shift k _ (index - 1)
    · rfl

theorem terminate_shift (s : Traversal) (index : Int) :
    (s.shift k).terminate (index + k) = shiftBoth k (s.terminate index) := by
  have hkind : (s.shift k).pending.map Token.kind = s.pending.map Token.kind := by
    cases h : s.pending <;> simp [h]
  simp only [terminate, hkind]
  split
  · exact openScope_shift k s index true
  · rfl
  · rfl

/-- What a token does further on is what it does, further on. -/
theorem process_shift (s : Traversal) (t : Token) (rest : List Token) :
    (s.shift k).process (t.shift k) (rest.map (Token.shift k)) =
      shiftBoth k (s.process t rest) := by
  have hnext : ((rest.map (Token.shift k)).find? (!·.isIgnorable)).any (·.kind == .separator) =
      (rest.find? (!·.isIgnorable)).any (·.kind == .separator) := by
    rw [List.find?_map, Option.any_map]
    rfl
  have howner : (s.shift k).current?.bind Scope.ownerKind? = s.current?.bind Scope.ownerKind? := by
    rw [current?_shift]
    cases s.current? <;> simp
  unfold process
  rw [hnext, howner, Token.kind_shift, Token.text_shift, Token.index_shift, scopes_shift,
    List.isEmpty_map, previous_shift]
  split
  · split_ifs
    · exact openScope_shift k { s with pending := some t } t.index false
    · rfl
  · split_ifs
    · rfl
    · rw [closeBraceless_shift]
      rfl
  · rfl
  · rfl
  · split_ifs <;> rfl
  · split_ifs <;> rfl
  · split_ifs
    · exact terminate_shift k s t.index
    · exact openScope_shift k s t.index false
    · exact closeScope_shift k s t.index
    · rfl
  · rfl

theorem step_shift (s : Traversal) (t : Token) (rest : List Token) :
    (s.shift k).step (t.shift k) (rest.map (Token.shift k)) = shiftBoth k (s.step t rest) := by
  unfold step
  rw [process_shift]
  cases h : t.isIgnorable <;> simp [h, Event.shift, Traversal.shift, current?]

/-! ## A whole run -/

/-- A run over tokens further on is the run, further on. -/
theorem run_shift (beyond : List Token) (s : Traversal) (tokens : List Token) :
    run (beyond.map (Token.shift k)) (s.shift k) (tokens.map (Token.shift k)) =
      shiftBoth k (run beyond s tokens) := by
  induction tokens generalizing s with
  | nil => rfl
  | cons t rest ih =>
    rw [List.map_cons, run_cons, run_cons, ← List.map_append, step_shift]
    simp only [shiftBoth, Prod.map_fst, Prod.map_snd, ih, List.map_append, Prod.map_apply]

theorem finish_shift (s : Traversal) (last : Int) :
    (s.shift k).finish (last + k) = (s.finish last).map (Event.shift k) := by
  simp [finish, Function.comp_def, Event.shift, Scope.close_shift]

end Traversal

/-! ## Reading -/

theorem Token.ofRaw_shift (raw : RawToken) (index : Int) :
    Token.ofRaw raw (index + k) = (Token.ofRaw raw index).map (Token.shift k) := by
  cases raw with
  | entry label text line =>
    simp only [Token.ofRaw]
    cases TokenKind.ofLabel? label <;> rfl
  | _ => rfl

theorem readTokens_shift (index : Int) (raws : List RawToken) :
    readTokens (index + k) raws =
      ((readTokens index raws).1.map (Token.shift k), (readTokens index raws).2) := by
  induction raws generalizing index with
  | nil => rfl
  | cons raw rest ih =>
    have hnext : index + k + 1 = index + 1 + k := by omega
    simp only [readTokens, Token.ofRaw_shift, hnext, ih]
    cases Token.ofRaw raw index <;> rfl

theorem decided_shift (tokens : List Token) :
    decided (tokens.map (Token.shift k)) = (decided tokens).map (Token.shift k) := by
  simp only [decided, ← List.map_reverse, List.dropWhile_map, Token.isIgnorable_comp_shift]
  cases tokens.reverse.dropWhile Token.isIgnorable with
  | nil => rfl
  | cons t before =>
    rw [List.map_cons]
    dsimp only
    rw [Token.kind_shift]
    split_ifs
    · rw [List.map_reverse]
    · rfl

/-! ## Visits -/

/-- The tokens that can be passed of those that can be read. -/
def passable (readable : List Token) (fault : Option TokenFault) : List Token :=
  if fault.isSome then decided readable else readable

/-- The scopes that a visit leaves open and what it reports, from the tokens that can be read, the
fault behind them, and the last position of the range. -/
def visitRead (limit : Option Nat) (readable : List Token) (fault : Option TokenFault) (last : Int) :
    List Scope × Visit :=
  let tokens := passable readable fault
  let passed := limit.elim tokens fun n => tokens.take n
  let (s, events) := Traversal.run (readable.drop passed.length) {} passed
  if limit.any (· ≤ tokens.length) then (s.scopes, ⟨events, none⟩)
  else if fault.isSome then (s.scopes, ⟨events, fault⟩)
  else ([], ⟨events ++ s.finish last, none⟩)

theorem passable_shift (readable : List Token) (fault : Option TokenFault) :
    passable (readable.map (Token.shift k)) fault = (passable readable fault).map (Token.shift k) := by
  unfold passable
  split_ifs
  · exact decided_shift k readable
  · rfl

theorem visitRead_shift (limit : Option Nat) (readable : List Token) (fault : Option TokenFault)
    (last : Int) :
    visitRead limit (readable.map (Token.shift k)) fault (last + k) =
      ((visitRead limit readable fault last).1.map (Scope.shift k),
        (visitRead limit readable fault last).2.shift k) := by
  have hrun (beyond passed : List Token) :
      Traversal.run (beyond.map (Token.shift k)) {} (passed.map (Token.shift k)) =
        Traversal.shiftBoth k (Traversal.run beyond {} passed) :=
    Traversal.run_shift k beyond {} passed
  have hpassed (tokens : List Token) :
      (limit.elim (tokens.map (Token.shift k)) fun n => (tokens.map (Token.shift k)).take n) =
        (limit.elim tokens fun n => tokens.take n).map (Token.shift k) := by
    cases limit with
    | none => rfl
    | some n => exact List.map_take.symm
  unfold visitRead
  dsimp only
  rw [passable_shift, List.length_map, hpassed, List.length_map, ← List.map_drop, hrun]
  split_ifs
  · rfl
  · rfl
  · simp only [Prod.map_fst, Prod.map_snd, Traversal.finish_shift, Visit.shift, List.map_append,
      List.map_nil]

namespace Visitor

/-- What a visit does depends on the tokens of its range. -/
theorem visit_eq (v : Visitor) (limit : Option Nat) :
    v.visit limit =
      let read := readTokens v.range.first (v.range.slice v.tokens)
      let outcome := visitRead limit read.1 read.2 (v.range.stop - 1)
      ({ v with scopes := outcome.1 }, outcome.2) := by
  unfold visit visitRead passable
  cases limit with
  | none =>
    dsimp only [Option.elim_none]
    split_ifs <;> rfl
  | some n =>
    dsimp only [Option.elim_some]
    split_ifs <;> rfl

/-- A visit of a range does what a visit of the part of the stream that it covers does, further on. -/
theorem visit_restrict (v : Visitor) (range : TokenRange) (hle : range.first ≤ range.stop)
    (hstop : range.stop ≤ v.tokens.length) (limit : Option Nat) :
    (v.restrict range).visit limit =
      let part := (ofTokens (range.slice v.tokens)).visit limit
      ({ v.restrict range with scopes := part.1.scopes.map (Scope.shift range.first) },
        part.2.shift range.first) := by
  have hwhole : TokenRange.slice ⟨0, (range.slice v.tokens).length⟩ (range.slice v.tokens) =
      range.slice v.tokens := by
    simp only [TokenRange.slice, List.take_length, List.drop_zero]
  have hlast : (range.stop : Int) - 1 = (range.slice v.tokens).length - 1 + range.first := by
    simp only [TokenRange.slice, List.length_drop, List.length_take]
    omega
  have hread := readTokens_shift range.first 0 (range.slice v.tokens)
  rw [Int.zero_add] at hread
  simp only [visit_eq, restrict, ofTokens, hwhole, hlast, hread, visitRead_shift, Int.natCast_zero]

end Visitor

theorem TokenRange.between_of_le {count first stop : Nat} (hle : first ≤ stop)
    (hstop : stop ≤ count) : TokenRange.between count first stop = .ok ⟨first, stop⟩ := by
  have hforward : ¬ (stop : Int) < first := by omega
  simp only [TokenRange.between, hforward, if_false, TokenRange.clamp, Int.toNat_natCast,
    Nat.min_eq_right hstop, Nat.min_eq_right (Nat.le_trans hle hstop)]

/-- Restricting a visitor to the range between two offsets is the same as cutting the stream there:
a traversal, whole or abandoned, reports what a traversal of the cut stream by a new visitor reports,
all positions further on by the first offset, and it fails where that one fails and leaves the same
scopes open. -/
theorem traverse_restrict (v : Visitor) {s e : Nat} (hle : s ≤ e) (hstop : e ≤ v.tokens.length) :
    ∃ range, TokenRange.between v.tokens.length s e = .ok range ∧
      let cut := Visitor.ofTokens ((v.tokens.take e).drop s)
      ((v.restrict range).traverse.2 = cut.traverse.2.shift s ∧
        (v.restrict range).traverse.1.scopes = cut.traverse.1.scopes.map (Scope.shift s)) ∧
      ∀ n, (v.restrict range).iterate n =
        ({ v.restrict range with scopes := (cut.iterate n).1.scopes.map (Scope.shift s) },
          (cut.iterate n).2.shift s) := by
  refine ⟨⟨s, e⟩, TokenRange.between_of_le hle hstop, ?_, fun n => ?_⟩
  · unfold Visitor.traverse
    rw [v.visit_restrict ⟨s, e⟩ hle hstop none]
    exact ⟨rfl, rfl⟩
  · unfold Visitor.iterate
    split_ifs
    · rfl
    · exact v.visit_restrict ⟨s, e⟩ hle hstop (some n)

/-- After a double colon the word `class` declares nothing. A range that begins with it does not see the
double colon, and there its block belongs to a class, as in a stream that begins with it. -/
theorem traverse_restrict_afterDoubleColon :
    let v : Visitor := .ofTokens [.entry "T_STRING" "A" 1, .entry "T_DOUBLE_COLON" "::" 1,
      .entry "T_CLASS" "class" 1, .entry "T_STRING" "B" 1, .bare "\x7b", .bare "\x7d", .bare "\x7d"]
    let blocks (visit : Visit) :=
      (closedScopes visit.events).map fun s => (s.ownerKind?, s.first, s.last)
    2 ≤ 6 ∧ 6 ≤ v.tokens.length ∧ blocks v.traverse.2 = [(none, 4, some 5)] ∧
      ∃ range, TokenRange.between v.tokens.length 2 6 = .ok range ∧
        blocks (v.restrict range).traverse.2 = [(some .classKeyword, 4, some 5)] := by
  intro v blocks
  obtain ⟨range, hrange, ⟨hevents, -⟩, -⟩ :=
    traverse_restrict v (s := 2) (e := 6) (by decide) (by decide)
  refine ⟨by decide, by decide, rfl, range, hrange, ?_⟩
  rw [hevents]
  rfl

end Reflection
