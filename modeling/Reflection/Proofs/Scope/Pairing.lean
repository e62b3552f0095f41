import Mathlib.Data.List.Forall2
import Reflection.Proofs.Program.Passage
import Reflection.Proofs.Token.Unplaced

/-!
# Traversals of paired tokens

A traversal sees no more of positions than their order. When the tokens of one stretch are paired with
the tokens of another one, each with one that is the same but for its place, and the pairs stand in the
same order, the two stretches open and close the same scopes, with the paired tokens in them.

## Main definitions

* `Pairing`: tokens that are the same but for their places, in the same order.
* `Pairing.Scopes`, `Pairing.Events`, `Pairing.States`: what traversals of paired tokens have in common.

## Main statements

* `Pairing.process_both`, `Pairing.step_both`: paired tokens keep states paired.
* `Pairing.run_both`, `Pairing.finish_events`: so do stretches and the ends of streams.
-/
namespace Reflection

open Token

/-! ## Looking ahead -/

/-- The next significant token is a separator, so a keyword `namespace` before it belongs to a name. -/
def leadsName (rest : List Token) : Bool :=
  (rest.find? (!·.isIgnorable)).any (·.kind == .separator)

/-- The last significant token of a stretch is no keyword `namespace`, so what the tokens of the stretch
do does not depend on what follows. -/
def SelfContained (ts : List Token) : Prop :=
  ∀ t ∈ (significant ts).getLast?, t.kind ≠ .namespaceKeyword

/-- The last significant token of a stretch is the first one that is found from its end. -/
theorem getLast?_significant (ts : List Token) :
    (significant ts).getLast? = previousSignificant? ts.reverse := by
  rw [List.getLast?_eq_head?_reverse, significant, ← List.filter_reverse, List.head?_filter]
  rfl

theorem SelfContained.tail {t : Token} {rest : List Token} (h : SelfContained (t :: rest)) :
    SelfContained rest := by
  intro u hu
  refine h u ?_
  cases hignorable : t.isIgnorable with
  | true => rwa [significant, List.filter_cons_of_neg (by simp [hignorable])]
  | false =>
    rw [significant, List.filter_cons_of_pos (by simp [hignorable])]
    exact List.mem_getLast?_cons hu

/-- After a keyword `namespace` of such a stretch stands another significant token of it. -/
theorem SelfContained.isSome_find? {t : Token} {rest : List Token} (h : SelfContained (t :: rest))
    (ht : t.kind = .namespaceKeyword) : (rest.find? (!·.isIgnorable)).isSome := by
  have hsignificant : t.isIgnorable = false := by simp [isIgnorable, ht, TokenKind.isIgnorable]
  by_contra hnone
  have hrest : significant rest = [] := by
    refine List.filter_eq_nil_iff.mpr ?_
    simpa using hnone
  refine h t ?_ ht
  rw [significant, List.filter_cons_of_pos (by simp [hsignificant]), ← significant, hrest]
  rfl

theorem leadsName_append {rest : List Token} (h : (rest.find? (!·.isIgnorable)).isSome)
    (beyond : List Token) : leadsName (rest ++ beyond) = leadsName rest := by
  obtain ⟨u, hu⟩ := Option.isSome_iff_exists.mp h
  rw [leadsName, List.find?_append, hu, leadsName, hu]
  rfl

namespace Traversal

/-- What follows a token matters to the keyword `namespace` only. -/
theorem process_congr {s : Traversal} {t : Token} {rest rest' : List Token}
    (h : t.kind = .namespaceKeyword → leadsName rest' = leadsName rest) :
    s.process t rest' = s.process t rest := by
  by_cases ht : t.kind = .namespaceKeyword
  · have hleads := h ht
    unfold leadsName at hleads
    simp only [process, ht, hleads]
  · unfold process
    split <;> first | rfl | exact absurd (by assumption) ht

/-- A stretch does the same whatever follows it. -/
theorem run_congr (s : Traversal) {ts : List Token} (h : SelfContained ts)
    (beyond beyond' : List Token) : run beyond' s ts = run beyond s ts := by
  induction ts generalizing s with
  | nil => rfl
  | cons t rest ih =>
    have hprocess : s.process t (rest ++ beyond') = s.process t (rest ++ beyond) :=
      process_congr fun ht => by
        rw [leadsName_append (h.isSome_find? ht), leadsName_append (h.isSome_find? ht)]
    have hstep : s.step t (rest ++ beyond') = s.step t (rest ++ beyond) := by
      rw [step, step, hprocess]
    rw [run_cons, run_cons, hstep, ih _ h.tail]

/-- No brace opens before a semicolon, or before a declaration begins to wait for its block. -/
def NoBraceFirst (beyond : List Token) (s : Traversal) : List Token → Prop
  | [] => True
  | t :: rest => t.isPunct ";" = true ∨ (s.step t (rest ++ beyond)).1.pending.isSome = true ∨
      t.isPunct "\x7b" = false ∧ NoBraceFirst beyond (s.step t (rest ++ beyond)).1 rest

instance NoBraceFirst.decidable (beyond : List Token) :
    ∀ (s : Traversal) (ts : List Token), Decidable (NoBraceFirst beyond s ts)
  | _, [] => .isTrue trivial
  | s, t :: rest =>
    have := NoBraceFirst.decidable beyond (s.step t (rest ++ beyond)).1 rest
    inferInstanceAs (Decidable (t.isPunct ";" = true ∨
      (s.step t (rest ++ beyond)).1.pending.isSome = true ∨
      t.isPunct "\x7b" = false ∧ NoBraceFirst beyond (s.step t (rest ++ beyond)).1 rest))

/-- Where an opening brace was passed, nothing waits. -/
theorem pending_step_opening (s : Traversal) {t : Token} (h : t.isPunct "\x7b" = true) (rest : List Token) :
    (s.step t rest).1.pending = none := by
  rw [step_eq, process_opening h]
  exact pending_note _ t

end Traversal

/-! ## Pairs -/

/-- A pairing of tokens with tokens that are the same but for their places. The pairs stand in one
order. -/
structure Pairing where
  Paired : Token → Token → Prop
  unplaced : ∀ {t t'}, Paired t t' → t'.unplaced = t.unplaced
  le_iff : ∀ {t t' u u'}, Paired t t' → Paired u u' → (t'.index ≤ u'.index ↔ t.index ≤ u.index)

namespace Pairing

variable (p : Pairing)

/-- Two positions with the same paired tokens before and after them. -/
def Bounds (last last' : Int) : Prop :=
  ∀ {t t'}, p.Paired t t' → (t'.index ≤ last' ↔ t.index ≤ last)

/-- Scopes of paired declarations around the same paired tokens. -/
structure Scopes (s s' : Scope) : Prop where
  level : s'.level = s.level
  parent : Option.Rel p.Paired s.parent s'.parent
  owner : Option.Rel p.Paired s.owner s'.owner
  braceless : s'.braceless = s.braceless
  first : ∀ {t t'}, p.Paired t t' → (s'.first ≤ t'.index ↔ s.first ≤ t.index)
  last : Option.Rel p.Bounds s.last s'.last

/-- Events at paired tokens, about paired scopes. -/
inductive Events : Event → Event → Prop
  | opened {s s' : Scope} (hscope : p.Scopes s s') : Events (.opened s) (.opened s')
  | closed {s s' : Scope} (hscope : p.Scopes s s') : Events (.closed s) (.closed s')
  | unbalanced (index index' : Int) : Events (.unbalanced index) (.unbalanced index')
  | passed {t t' : Token} {scope scope' : Option Scope} (ht : p.Paired t t')
      (hscope : Option.Rel p.Scopes scope scope') : Events (.passed t scope) (.passed t' scope')

/-- What waits for its block: paired declarations, or a function in the second traversal alone if it may
be `stale`. -/
def Waiting (stale : Bool) (pending pending' : Option Token) : Prop :=
  Option.Rel p.Paired pending pending' ∨
    stale = true ∧ pending = none ∧ pending'.map Token.kind = some .functionKeyword

/-- States with paired scopes and paired declarations that wait. -/
structure States (stale : Bool) (s s' : Traversal) : Prop where
  scopes : List.Forall₂ p.Scopes s.scopes s'.scopes
  pending : p.Waiting stale s.pending s'.pending
  doubleColon : s'.previous = some .doubleColon ↔ s.previous = some .doubleColon

/-- Two passes that end in paired states, with paired events. -/
def Both (stale : Bool) (r r' : Traversal × List Event) : Prop :=
  p.States stale r.1 r'.1 ∧ List.Forall₂ p.Events r.2 r'.2

variable {p}

section

variable {t t' : Token}

theorem kind_eq (h : p.Paired t t') : t'.kind = t.kind := kind_of_unplaced (p.unplaced h)

theorem text_eq (h : p.Paired t t') : t'.text = t.text := text_of_unplaced (p.unplaced h)

theorem isIgnorable_eq (h : p.Paired t t') : t'.isIgnorable = t.isIgnorable := by
  rw [isIgnorable, isIgnorable, kind_eq h]

theorem isPunct_eq (h : p.Paired t t') (text : String) : t'.isPunct text = t.isPunct text := by
  rw [isPunct, isPunct, kind_eq h, text_eq h]

theorem kind?_eq {o o' : Option Token} (h : Option.Rel p.Paired o o') :
    o'.map Token.kind = o.map Token.kind := by
  cases h with
  | none => rfl
  | some h => exact congrArg some (kind_eq h)

/-- The position of a paired token bounds the same tokens. -/
theorem bounds_index (h : p.Paired t t') : p.Bounds t.index t'.index := fun hu => p.le_iff hu h

/-- So does the position before it. -/
theorem bounds_before (h : p.Paired t t') : p.Bounds (t.index - 1) (t'.index - 1) := by
  intro u u' hu
  have := p.le_iff h hu
  omega

/-- What is seen ahead of paired tokens is the same. -/
theorem leadsName_eq {rest rest' beyond beyond' : List Token} (h : List.Forall₂ p.Paired rest rest')
    (hahead : (rest.find? (!·.isIgnorable)).isSome ∨ leadsName beyond' = leadsName beyond) :
    leadsName (rest' ++ beyond') = leadsName (rest ++ beyond) := by
  induction h with
  | nil => exact hahead.resolve_left (by simp)
  | @cons t t' rest rest' ht _ ih =>
    unfold leadsName at ih ⊢
    rw [List.find?_cons] at hahead
    rw [List.cons_append, List.cons_append, List.find?_cons, List.find?_cons, isIgnorable_eq ht]
    cases hignorable : t.isIgnorable with
    | true =>
      rw [hignorable] at hahead
      exact ih hahead
    | false => simp only [Bool.not_false, Option.any_some, kind_eq ht]

end

theorem all_le_eq {last last' : Option Int} (h : Option.Rel p.Bounds last last') {t t' : Token}
    (ht : p.Paired t t') : last'.all (t'.index ≤ ·) = last.all (t.index ≤ ·) := by
  cases h with
  | none => rfl
  | some hbounds => exact decide_eq_decide.mpr (hbounds ht)

/-! ## Scopes -/

namespace Scopes

variable {s s' : Scope}

theorem ownerKind?_eq (h : p.Scopes s s') : s'.ownerKind? = s.ownerKind? := kind?_eq h.owner

theorem parentKind?_eq (h : p.Scopes s s') : s'.parentKind? = s.parentKind? := kind?_eq h.parent

theorem close (h : p.Scopes s s') {last last' : Int} (hlast : p.Bounds last last') :
    p.Scopes (s.close last) (s'.close last') :=
  ⟨h.level, h.parent, h.owner, h.braceless, h.first, .some hlast⟩

/-- A paired token lies in both scopes or in neither. -/
theorem contains_eq (h : p.Scopes s s') {t t' : Token} (ht : p.Paired t t') :
    s'.contains t'.index = s.contains t.index := by
  have hfirst : decide (s'.first ≤ t'.index) = decide (s.first ≤ t.index) :=
    decide_eq_decide.mpr (h.first ht)
  rw [Scope.contains, Scope.contains, hfirst, all_le_eq h.last ht]

end Scopes

theorem bind_owner {scope scope' : Option Scope} (h : Option.Rel p.Scopes scope scope') :
    Option.Rel p.Paired (scope.bind Scope.owner) (scope'.bind Scope.owner) := by
  cases h with
  | none => exact .none
  | some hscope => exact hscope.owner

theorem bind_ownerKind? {scope scope' : Option Scope} (h : Option.Rel p.Scopes scope scope') :
    scope'.bind Scope.ownerKind? = scope.bind Scope.ownerKind? := by
  cases h with
  | none => rfl
  | some hscope => exact hscope.ownerKind?_eq

/-! ## States -/

theorem Both.mono {stale : Bool} {r r' : Traversal × List Event} (h : p.Both false r r') :
    p.Both stale r r' := by
  obtain ⟨⟨hscopes, hpending | ⟨hstale, -⟩, hdouble⟩, hevents⟩ := h
  · exact ⟨⟨hscopes, .inl hpending, hdouble⟩, hevents⟩
  · cases hstale

/-- A declaration that waits in the first traversal waits in both. -/
theorem Both.fresh {stale : Bool} {r r' : Traversal × List Event} (h : p.Both stale r r')
    (hwaits : r.1.pending.isSome = true) : p.Both false r r' := by
  obtain ⟨⟨hscopes, hpending | ⟨-, hnone, -⟩, hdouble⟩, hevents⟩ := h
  · exact ⟨⟨hscopes, .inl hpending, hdouble⟩, hevents⟩
  · rw [hnone] at hwaits
    cases hwaits

namespace States

variable {stale : Bool} {s s' : Traversal} {t t' : Token}

/-- Without an event. -/
theorem both (h : p.States stale s s') : p.Both stale (s, []) (s', []) := ⟨h, .nil⟩

theorem current? (h : p.States stale s s') : Option.Rel p.Scopes s.current? s'.current? := by
  have hscopes := h.scopes
  rw [Traversal.current?, Traversal.current?]
  revert hscopes
  generalize s.scopes = scopes
  generalize s'.scopes = scopes'
  intro hscopes
  cases hscopes with
  | nil => exact .none
  | cons hscope _ => exact .some hscope

theorem isEmpty_eq (h : p.States stale s s') : s'.scopes.isEmpty = s.scopes.isEmpty := by
  rw [Bool.eq_iff_iff, List.isEmpty_iff_length_eq_zero, List.isEmpty_iff_length_eq_zero,
    h.scopes.length_eq]

/-- A paired keyword that begins to wait replaces what waited before. -/
theorem await (h : p.States stale s s') (ht : p.Paired t t') :
    p.States false { s with pending := some t } { s' with pending := some t' } :=
  ⟨h.scopes, .inl (.some ht), h.doubleColon⟩

theorem note (h : p.States stale s s') (ht : p.Paired t t') :
    p.States stale (s.note t) (s'.note t') := by
  rw [Traversal.note, Traversal.note, isIgnorable_eq ht]
  split
  · exact h
  · exact ⟨h.scopes, h.pending, by rw [kind_eq ht]⟩

/-- A paired token opens paired scopes. -/
theorem openScope (h : p.States false s s') (ht : p.Paired t t') (braceless : Bool) :
    p.Both false (s.openScope t.index braceless) (s'.openScope t'.index braceless) := by
  obtain hpending | ⟨hstale, -⟩ := h.pending
  · have hparent := bind_owner h.current?
    have hscope : p.Scopes
        { level := s.scopes.length, parent := s.current?.bind Scope.owner, owner := s.pending,
          first := t.index, braceless }
        { level := s'.scopes.length, parent := s'.current?.bind Scope.owner, owner := s'.pending,
          first := t'.index, braceless } :=
      ⟨h.scopes.length_eq.symm, hparent, hpending, rfl, fun hu => p.le_iff ht hu, .none⟩
    exact ⟨⟨.cons hscope h.scopes, .inl .none, h.doubleColon⟩, .cons (.opened hscope) .nil⟩
  · cases hstale

/-- The innermost scopes close before the same paired tokens. -/
theorem closeScope (h : p.States stale s s') {last last' : Int} (hlast : p.Bounds last last') :
    p.Both stale (s.closeScope last) (s'.closeScope last') := by
  obtain ⟨scopes, pending, previous⟩ := s
  obtain ⟨scopes', pending', previous'⟩ := s'
  obtain ⟨hscopes, hpending, hdouble⟩ := h
  cases hscopes with
  | nil => exact ⟨⟨.nil, hpending, hdouble⟩, .cons (.unbalanced last last') .nil⟩
  | cons hscope hscopes =>
    exact ⟨⟨hscopes, hpending, hdouble⟩, .cons (.closed (hscope.close hlast)) .nil⟩

theorem closeBraceless (h : p.States stale s s') (ht : p.Paired t t') :
    p.Both stale (s.closeBraceless t.index) (s'.closeBraceless t'.index) := by
  have hclose := h.closeScope (bounds_before ht)
  obtain ⟨scopes, pending, previous⟩ := s
  obtain ⟨scopes', pending', previous'⟩ := s'
  obtain ⟨hscopes, hpending, hdouble⟩ := id h
  cases hscopes with
  | nil => exact h.both
  | @cons scope scope' _ _ hscope hscopes =>
    simp only [Traversal.closeBraceless, hscope.braceless]
    split
    · exact hclose
    · exact h.both

/-- A semicolon ends what only one of the traversals waits for. -/
theorem terminate (h : p.States stale s s') (ht : p.Paired t t') :
    p.Both false (s.terminate t.index) (s'.terminate t'.index) := by
  rcases h.pending with hpending | ⟨-, hnone, hfunction⟩
  · have hstates : p.States false s s' := ⟨h.scopes, .inl hpending, h.doubleColon⟩
    simp only [Traversal.terminate, kind?_eq hpending]
    split
    · exact hstates.openScope ht true
    · exact States.both ⟨h.scopes, .inl .none, h.doubleColon⟩
    · exact hstates.both
  · simp only [Traversal.terminate, hnone, hfunction, Option.map_none]
    refine States.both ⟨h.scopes, .inl ?_, h.doubleColon⟩
    rw [hnone]
    exact .none

end States

/-! ## Passes -/

variable {stale : Bool} {s s' : Traversal} {t t' : Token} {rest rest' : List Token}

/-- Paired tokens are processed alike. An opening brace is not, where only one of the traversals waits for
a block. -/
theorem process_both (h : p.States stale s s') (ht : p.Paired t t')
    (hleads : t.kind = .namespaceKeyword → leadsName rest' = leadsName rest)
    (hbrace : stale = true → t.isPunct "\x7b" = false) :
    p.Both stale (s.process t rest) (s'.process t' rest') := by
  have howner := bind_ownerKind? h.current?
  unfold leadsName at hleads
  unfold Traversal.process
  rw [kind_eq ht, text_eq ht]
  cases hkind : t.kind
  case openTag =>
    simp only [h.isEmpty_eq]
    split
    · exact ((h.await ht).openScope ht false).mono
    · exact h.both
  case namespaceKeyword =>
    simp only [hleads hkind]
    split
    · exact h.both
    · obtain ⟨hstates, hevents⟩ := h.closeBraceless ht
      exact Both.mono ⟨hstates.await ht, hevents⟩
  case interfaceKeyword => exact (h.await ht).both.mono
  case traitKeyword => exact (h.await ht).both.mono
  case classKeyword =>
    simp only [h.doubleColon]
    split
    · exact h.both
    · exact (h.await ht).both.mono
  case functionKeyword =>
    simp only [howner]
    split
    · exact (h.await ht).both.mono
    · exact h.both
  case punctuation =>
    dsimp only
    split_ifs with hsemicolon hopening hclosing
    · exact (h.terminate ht).mono
    · cases stale with
      | false => exact h.openScope ht false
      | true =>
        have := hbrace rfl
        simp [isPunct, hkind, hopening] at this
    · exact h.closeScope (bounds_index ht)
    · exact h.both
  all_goals exact h.both

/-- A semicolon leaves no declaration waiting in one of the traversals alone. -/
theorem States.process_semicolon (h : p.States stale s s') (ht : p.Paired t t')
    (hsemicolon : t.isPunct ";" = true) (rest rest' : List Token) :
    p.Both false (s.process t rest) (s'.process t' rest') := by
  rw [Traversal.process_semicolon hsemicolon,
    Traversal.process_semicolon ((isPunct_eq ht ";").trans hsemicolon)]
  exact h.terminate ht

/-- The token is reported in the scope that is open after it. -/
theorem Both.step (h : p.Both stale (s.process t rest) (s'.process t' rest')) (ht : p.Paired t t') :
    p.Both stale (s.step t rest) (s'.step t' rest') := by
  obtain ⟨hstates, hevents⟩ := h
  rw [Traversal.step_eq, Traversal.step_eq]
  exact ⟨hstates.note ht,
    List.rel_append hevents (.cons (.passed ht hstates.current?) .nil)⟩

/-- One pass after another one. -/
theorem Both.append {stale' : Bool} {events events' : List Event} {r r' : Traversal × List Event}
    (hevents : List.Forall₂ p.Events events events') (h : p.Both stale' r r') :
    p.Both stale' (r.1, events ++ r.2) (r'.1, events' ++ r'.2) :=
  ⟨h.1, List.rel_append hevents h.2⟩

variable {ts ts' beyond beyond' : List Token}

/-- Paired stretches are passed alike. Where a function waits in the second traversal alone, a semicolon
drops it or another declaration takes its place before a brace opens. -/
theorem run_both (h : p.States stale s s') (hts : List.Forall₂ p.Paired ts ts')
    (hahead : SelfContained ts ∨ leadsName beyond' = leadsName beyond)
    (hbrace : stale = true → s.NoBraceFirst beyond ts) :
    p.Both stale (Traversal.run beyond s ts) (Traversal.run beyond' s' ts') := by
  induction hts generalizing s s' stale with
  | nil => exact h.both
  | @cons t t' rest rest' ht hrest ih =>
    have hleads (hkind : t.kind = .namespaceKeyword) :
        leadsName (rest' ++ beyond') = leadsName (rest ++ beyond) :=
      leadsName_eq hrest (hahead.imp_left fun hself => hself.isSome_find? hkind)
    have hahead' := hahead.imp_left SelfContained.tail
    rw [Traversal.run_cons, Traversal.run_cons]
    by_cases hsemicolon : t.isPunct ";" = true
    · have hstep := (h.process_semicolon ht hsemicolon (rest ++ beyond) (rest' ++ beyond')).step ht
      exact (Both.append hstep.2 (ih hstep.1 hahead' nofun)).mono
    cases stale with
    | false =>
      have hstep := (process_both h ht hleads nofun).step ht
      exact Both.append hstep.2 (ih hstep.1 hahead' nofun)
    | true =>
      obtain hend | hwaits | ⟨hopening, hrest⟩ := hbrace rfl
      · exact absurd hend hsemicolon
      · have hopening : t.isPunct "\x7b" = false := Bool.eq_false_iff.mpr fun hopening => by
          rw [Traversal.pending_step_opening s hopening] at hwaits
          cases hwaits
        have hstep := ((process_both h ht hleads fun _ => hopening).step ht).fresh hwaits
        exact (Both.append hstep.2 (ih hstep.1 hahead' nofun)).mono
      · have hstep := (process_both h ht hleads fun _ => hopening).step ht
        exact Both.append hstep.2 (ih hstep.1 hahead' fun _ => hrest)

/-- Every open scope closes at the end of a stream. -/
theorem finish_events (h : p.States stale s s') {last last' : Int} (hlast : p.Bounds last last') :
    List.Forall₂ p.Events (s.finish last) (s'.finish last') := by
  have hscopes := h.scopes
  rw [Traversal.finish, Traversal.finish, List.forall₂_map_left_iff, List.forall₂_map_right_iff]
  exact hscopes.imp fun _ _ hscope => .closed (hscope.close hlast)

end Pairing
end Reflection
