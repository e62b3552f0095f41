import Mathlib.Data.List.Forall2
import Reflection.Proofs.Declaration.Members
import Reflection.Proofs.Token.Braces

/-!
# Scopes of braces

Where no namespace begins, nothing but braces opens or closes a scope within a file. A traversal keeps one
scope for each opening brace: as long as the brace waits for its partner, the scope is open, as deep in the
stack as blocks are open inside of it, and it closes at the partner.

## Main definitions

* `StandsFor`: a scope stands for an opening brace.
* `FollowsBraces`: the invariant of a traversal without namespaces.
* `IsScopeOf`, `IsInnermostAt`: the scope of a pair of braces, and the one of the innermost open pair.

## Main statements

* `FollowsBraces.step`, `FollowsBraces.run`: a step keeps the invariant, and so does a run.
* `exists_scopes_of_match`, `level_of_pair`: the scopes of a stream with matching braces are those of its
  pairs, each one level deeper than the pairs around it are many.
* `exists_passed_of_match`: each token is passed in the scope of the innermost pair that is open.
* `scopes_of_braces`: the same of a whole traversal, which reports no bracket as unbalanced.
-/
namespace Reflection

open Token

/-- A scope stands for an opening brace: it starts there, it has closed where the brace has found its
partner, and it is open in the stack, below the blocks inside of it, where the brace waits. -/
def StandsFor (stack : List Scope) (a : Scope) (b : Token × Partner) : Prop :=
  a.first = b.1.index ∧
    match b.2 with
    | .waits inside => a.last = none ∧ stack[inside]? = some a
    | .found c => a.last = some c.index

namespace StandsFor

variable {stack outer : List Scope} {a x : Scope} {b : Token × Partner} {t : Token}

/-- Where another block opens, it is inside of what is open. -/
theorem opens (h : StandsFor stack x b) (a : Scope) (hopening : t.isPunct "\x7b" = true) :
    StandsFor (a :: stack) x (b.1, b.2.pass t) := by
  obtain ⟨o, known⟩ := b
  refine ⟨h.1, ?_⟩
  cases known with
  | waits k =>
    rw [Partner.pass_opening hopening]
    exact h.2
  | found c => exact h.2

/-- Where the innermost block closes, its brace has found its partner, and there is one block less inside
of the others. -/
theorem closes (h : StandsFor (a :: outer) x b) (hclosing : t.isPunct "\x7d" = true)
    (hbelow : ∀ y ∈ outer, y.first ≠ a.first) (hopen : x.first = a.first → x.last = none) :
    StandsFor outer (if x.first = a.first then a.close t.index else x) (b.1, b.2.pass t) := by
  obtain ⟨hfirst, hknown⟩ := h
  obtain ⟨o, known⟩ := b
  cases known with
  | waits k =>
    obtain ⟨hlast, hplace⟩ := hknown
    cases k with
    | zero =>
      cases hplace
      rw [(Partner.pass_closing hclosing (k := 0)).1, if_pos rfl]
      exact ⟨hfirst, rfl⟩
    | succ k =>
      rw [(Partner.pass_closing hclosing).2, if_neg (hbelow x (List.mem_of_getElem? hplace))]
      exact ⟨hfirst, hlast, hplace⟩
  | found c =>
    have hclosed : x.last = some c.index := hknown
    have hother : x.first ≠ a.first := by
      intro hsame
      rw [hopen hsame] at hclosed
      cases hclosed
    rw [if_neg hother]
    exact ⟨hfirst, hknown⟩

end StandsFor

/-- Where a traversal has passed some tokens without namespaces, the scope of the file being open: the other
scopes stand for the braces, and no closing brace has closed nothing. -/
structure FollowsBraces (file : Scope) (pre : List Token) (inner : List Scope) (events : List Event)
    (s : Traversal) : Prop where
  record : scopesOf events = file :: inner
  stands : List.Forall₂ (StandsFor s.scopes) inner (braces pre)
  bottom : s.scopes.getLast? = some file
  depth : s.scopes.length + closings pre = openings pre + 1
  awaits : s.AwaitsBlock
  silent : events.filterMap Event.warning? = []

/-- What corresponds to an element of either of two lists. -/
theorem exists_of_forall₂ {α β : Type} {R : α → β → Prop} {xs : List α} {ys : List β}
    (h : List.Forall₂ R xs ys) : (∀ x ∈ xs, ∃ y ∈ ys, R x y) ∧ ∀ y ∈ ys, ∃ x ∈ xs, R x y := by
  induction h with
  | nil => simp
  | cons hxy _ ih =>
    refine ⟨List.forall_mem_cons.mpr ⟨⟨_, List.mem_cons_self .., hxy⟩, fun x hx => ?_⟩,
      List.forall_mem_cons.mpr ⟨⟨_, List.mem_cons_self .., hxy⟩, fun y hy => ?_⟩⟩
    · obtain ⟨y, hy, hR⟩ := ih.1 x hx
      exact ⟨y, List.mem_cons_of_mem _ hy, hR⟩
    · obtain ⟨x, hx, hR⟩ := ih.2 y hy
      exact ⟨x, List.mem_cons_of_mem _ hx, hR⟩

/-- What corresponds in two lists are elements of them. -/
theorem forall₂_mem {α β : Type} {R : α → β → Prop} {xs : List α} {ys : List β}
    (h : List.Forall₂ R xs ys) : List.Forall₂ (fun x y => x ∈ xs ∧ y ∈ ys ∧ R x y) xs ys := by
  induction h with
  | nil => exact .nil
  | cons hxy _ ih =>
    exact .cons ⟨List.mem_cons_self .., List.mem_cons_self .., hxy⟩ (ih.imp fun x y ⟨hx, hy, h⟩ =>
      ⟨List.mem_cons_of_mem _ hx, List.mem_cons_of_mem _ hy, h⟩)

/-- A member of a list ends a front of it. -/
theorem exists_front_of_mem {α : Type} {x y : α} {ys : List α} (h : y ∈ x :: ys) :
    ∃ zs rest front, ys = zs ++ rest ∧ x :: zs = front ++ [y] := by
  obtain ⟨front, rest, hsplit⟩ := List.append_of_mem h
  cases front with
  | nil =>
    obtain ⟨rfl, rfl⟩ := List.cons.inj hsplit
    exact ⟨[], ys, [], rfl, rfl⟩
  | cons z front =>
    obtain ⟨rfl, rfl⟩ := List.cons.inj hsplit
    exact ⟨front ++ [y], rest, x :: front, by simp, rfl⟩

/-- The scopes of a stack start one after the other, the innermost last. -/
theorem Tracks.stack_sorted {first next : Int} {events : List Event} {scopes stack : List Scope}
    (h : Tracks first next events scopes stack) : stack.Pairwise fun a b => b.first < a.first := by
  rw [h.stack_eq, List.pairwise_reverse]
  exact h.sorted.filter _

theorem Tracks.mem_stack_iff {first next : Int} {events : List Event} {scopes stack : List Scope}
    (h : Tracks first next events scopes stack) {a : Scope} : a ∈ stack ↔ a ∈ scopes ∧ a.last = none := by
  rw [h.stack_eq, List.mem_reverse, List.mem_filter, Option.isNone_iff_eq_none]

namespace FollowsBraces

variable {file : Scope} {pre rest : List Token} {inner : List Scope} {events : List Event} {s : Traversal}
  {t : Token} {first next : Int}

/-- The token that was processed is reported. -/
theorem pass (h : FollowsBraces file pre inner events s) (t : Token) :
    FollowsBraces file pre inner (events ++ [.passed t s.current?]) (s.note t) where
  record := by
    rw [scopesOf_append, h.record]
    rfl
  stands := by rw [Traversal.scopes_note]; exact h.stands
  bottom := by rw [Traversal.scopes_note]; exact h.bottom
  depth := by rw [Traversal.scopes_note]; exact h.depth
  awaits := fun u hu => h.awaits u (by rwa [Traversal.pending_note] at hu)
  silent := by rw [List.filterMap_append, h.silent]; rfl

/-- A token that is no brace changes neither scopes nor braces. -/
theorem other (h : FollowsBraces file pre inner events s) (hkind : t.kind ≠ .namespaceKeyword)
    (hopening : t.isPunct "\x7b" = false) (hclosing : t.isPunct "\x7d" = false) :
    FollowsBraces file (pre ++ [t]) inner (events ++ (s.process t rest).2) (s.process t rest).1 := by
  have hopen : s.scopes ≠ [] := by
    intro hnil
    have hbottom := h.bottom
    rw [hnil] at hbottom
    cases hbottom
  obtain ⟨hscopes, hevents⟩ := s.process_within rest hopen h.awaits hkind hopening hclosing
  have hbraces : braces (pre ++ [t]) = braces pre := by
    simp [braces_concat hopening, Partner.pass_other hopening hclosing]
  refine ⟨?_, ?_, ?_, ?_, h.awaits.process hkind, ?_⟩
  · rw [hevents, List.append_nil, h.record]
  · rw [hscopes, hbraces]
    exact h.stands
  · rw [hscopes, h.bottom]
  · rw [hscopes, (counts_other hopening hclosing pre).1, (counts_other hopening hclosing pre).2, h.depth]
  · rw [hevents, List.append_nil, h.silent]

/-- An opening brace opens a scope, which stands for it. -/
theorem opens (h : FollowsBraces file pre inner events s) (hopening : t.isPunct "\x7b" = true) :
    ∃ inner', FollowsBraces file (pre ++ [t]) inner' (events ++ (s.process t rest).2)
      (s.process t rest).1 := by
  have hawaits : (s.process t rest).1.AwaitsBlock :=
    h.awaits.process (by rw [kind_of_isPunct hopening]; decide)
  rw [Traversal.process_opening hopening] at hawaits ⊢
  obtain ⟨a, hstate, hevents, hfirst, hlast⟩ : ∃ a, (s.openScope t.index false).1.scopes = a :: s.scopes ∧
      (s.openScope t.index false).2 = [.opened a] ∧ a.first = t.index ∧ a.last = none :=
    ⟨_, rfl, rfl, rfl, rfl⟩
  rw [hevents]
  refine ⟨inner ++ [a], ?_, ?_, ?_, ?_, hawaits, ?_⟩
  · rw [scopesOf_append, h.record]
    rfl
  · rw [hstate, braces_concat_opening hopening]
    refine List.rel_append (List.forall₂_map_right_iff.mpr ?_) (.cons ⟨hfirst, hlast, rfl⟩ .nil)
    exact h.stands.imp fun x b hstands => hstands.opens a hopening
  · rw [hstate, List.getLast?_cons, h.bottom]
    rfl
  · obtain ⟨hopenings, hclosings⟩ := counts_opening hopening pre
    have hdepth := h.depth
    rw [hstate, hopenings, hclosings, List.length_cons]
    omega
  · rw [List.filterMap_append, h.silent]
    rfl

/-- A closing brace closes the scope of the innermost brace that waits, if one does. -/
theorem closes (h : FollowsBraces file pre inner events s)
    (htracks : Tracks first next events (file :: inner) s.scopes) (hclosing : t.isPunct "\x7d" = true)
    (hwaiting : closings (pre ++ [t]) ≤ openings (pre ++ [t])) :
    ∃ inner', FollowsBraces file (pre ++ [t]) inner' (events ++ (s.process t rest).2)
      (s.process t rest).1 := by
  have hawaits : (s.process t rest).1.AwaitsBlock :=
    h.awaits.process (by rw [kind_of_isPunct hclosing]; decide)
  have hdepth := h.depth
  obtain ⟨hopenings, hclosings⟩ := counts_closing hclosing pre
  rw [hopenings, hclosings] at hwaiting
  obtain ⟨a, outer, hstack, houter⟩ : ∃ a outer, s.scopes = a :: outer ∧ outer ≠ [] := by
    match hscopes : s.scopes with
    | [] | [_] =>
      rw [hscopes] at hdepth
      simp only [List.length_cons, List.length_nil] at hdepth
      omega
    | a :: b :: outer => exact ⟨a, b :: outer, rfl, List.cons_ne_nil _ _⟩
  have hevents : (s.process t rest).2 = [.closed (a.close t.index)] ∧
      (s.process t rest).1.scopes = outer := by
    rw [Traversal.process_closing hclosing, Traversal.closeScope, hstack]
    exact ⟨rfl, rfl⟩
  have hbottom : outer.getLast? = some file := by
    have hbottom := h.bottom
    rwa [hstack, List.getLast?_cons_of_ne_nil houter] at hbottom
  -- The scopes below the innermost one have started before it.
  have hbelow : ∀ x ∈ outer, x.first ≠ a.first := by
    intro x hx
    have hsorted := htracks.stack_sorted
    rw [hstack] at hsorted
    exact Int.ne_of_lt ((List.pairwise_cons.mp hsorted).1 x hx)
  have ha : a ∈ file :: inner ∧ a.last = none := by
    rw [← htracks.mem_stack_iff, hstack]
    exact List.mem_cons_self ..
  rw [hevents.1]
  refine ⟨recordScope inner (.closed (a.close t.index)), ?_, ?_, ?_, ?_, hawaits, ?_⟩
  · rw [scopesOf_append, h.record]
    exact congrArg (· :: recordScope inner (.closed (a.close t.index))) (if_neg (hbelow file (List.mem_of_getLast? hbottom)))
  · rw [hevents.2, braces_concat (not_opening_of_closing hclosing), recordScope,
      List.forall₂_map_left_iff, List.forall₂_map_right_iff]
    refine (forall₂_mem h.stands).imp fun x b hmem => ?_
    obtain ⟨hx, -, hstands⟩ := hmem
    rw [hstack] at hstands
    refine hstands.closes hclosing hbelow fun hsame => ?_
    rw [htracks.eq_of_first (List.mem_cons_of_mem file hx) ha.1 hsame, ha.2]
  · rw [hevents.2, hbottom]
  · rw [hstack, List.length_cons] at hdepth
    rw [hevents.2, hopenings, hclosings]
    omega
  · rw [List.filterMap_append, h.silent]
    rfl

/-- Passing a token keeps the invariant, as long as no closing brace is left without partner. -/
theorem step (h : FollowsBraces file pre inner events s) (beyond : List Token)
    (htracks : Tracks first next events (file :: inner) s.scopes) (hkind : t.kind ≠ .namespaceKeyword)
    (hwaiting : closings (pre ++ [t]) ≤ openings (pre ++ [t])) :
    ∃ inner', FollowsBraces file (pre ++ [t]) inner' (events ++ (s.step t beyond).2) (s.step t beyond).1 := by
  obtain ⟨inner', hprocess⟩ : ∃ inner', FollowsBraces file (pre ++ [t]) inner'
      (events ++ (s.process t beyond).2) (s.process t beyond).1 := by
    obtain ⟨hopening, -⟩ | ⟨-, hclosing⟩ | ⟨hopening, hclosing⟩ := brace_cases t
    · exact h.opens hopening
    · exact h.closes htracks hclosing hwaiting
    · exact ⟨inner, h.other hkind hopening hclosing⟩
  rw [Traversal.step_eq, ← List.append_assoc]
  exact ⟨inner', hprocess.pass t⟩

/-- A run keeps the invariant. -/
theorem run {ts : List Token} (h : FollowsBraces file pre inner events s)
    (htracks : Tracks first next events (file :: inner) s.scopes) (hfirst : first ≤ next)
    (hnumbered : Numbered next ts) (hkinds : ∀ t ∈ ts, t.kind ≠ .namespaceKeyword)
    (hwaiting : ∀ front, front <+: ts → closings (pre ++ front) ≤ openings (pre ++ front))
    (beyond : List Token) :
    ∃ inner', FollowsBraces file (pre ++ ts) inner' (events ++ (Traversal.run beyond s ts).2)
        (Traversal.run beyond s ts).1 ∧
      Tracks first (next + ts.length) (events ++ (Traversal.run beyond s ts).2) (file :: inner')
        (Traversal.run beyond s ts).1.scopes := by
  induction ts generalizing pre inner events s next with
  | nil =>
    refine ⟨inner, ?_, ?_⟩
    · simpa using h
    · simpa using htracks
  | cons t rest ih =>
    obtain ⟨hindex, hrest⟩ := hnumbered
    obtain ⟨hkind, hkinds⟩ := List.forall_mem_cons.mp hkinds
    obtain ⟨inner', hstep⟩ := h.step (rest ++ beyond) htracks hkind (hwaiting [t] (by simp))
    obtain ⟨scopes, htracks'⟩ := htracks.step (rest ++ beyond) hfirst hindex
    obtain rfl : scopes = file :: inner' := htracks'.record.symm.trans hstep.record
    obtain ⟨last, hrun, htracks''⟩ := ih hstep htracks' (by omega) hrest hkinds fun front hfront => by
      rw [← List.append_cons]
      exact hwaiting (t :: front) (List.cons_prefix_cons.mpr ⟨rfl, hfront⟩)
    have hlength : next + 1 + (rest.length : Int) = next + ((rest.length + 1 : Nat) : Int) := by
      omega
    rw [← List.append_cons, List.append_assoc] at hrun
    rw [List.append_assoc, hlength] at htracks''
    exact ⟨last, hrun, htracks''⟩

/-- Of the beginning of a stream with matching braces, the scope of the file and those of the braces. -/
theorem exists_of_front {tag : Token} {xs ys : List Token} (htag : tag.kind = .openTag)
    (hnumbered : Numbered 0 (tag :: (xs ++ ys)))
    (hkinds : ∀ t ∈ tag :: (xs ++ ys), t.kind ≠ .namespaceKeyword)
    (hmatch : BracesMatch (tag :: (xs ++ ys))) :
    ∃ file inner, file.first = 0 ∧ file.level = 0 ∧
      FollowsBraces file (tag :: xs) inner (Traversal.run ys {} (tag :: xs)).2
        (Traversal.run ys {} (tag :: xs)).1 ∧
      Tracks 0 (1 + xs.length) (Traversal.run ys {} (tag :: xs)).2 (file :: inner)
        (Traversal.run ys {} (tag :: xs)).1.scopes := by
  obtain ⟨hindex, hrest⟩ := hnumbered
  obtain ⟨-, hkinds⟩ := List.forall_mem_cons.mp hkinds
  let file : Scope := { owner := some tag, first := tag.index }
  have hstep (rest : List Token) : Traversal.step {} tag rest =
      (⟨[file], none, some tag.kind⟩, [.opened file, .passed tag (some file)]) := by
    have hsignificant : tag.isIgnorable = false := by simp [isIgnorable, htag, TokenKind.isIgnorable]
    simp [Traversal.step_eq, Traversal.process, Traversal.openScope, Traversal.note, Traversal.current?, htag,
      hsignificant, file]
  have hbraces : tag.isPunct "\x7b" = false ∧ tag.isPunct "\x7d" = false := by simp [isPunct, htag]
  have hfile : FollowsBraces file [tag] [] [.opened file, .passed tag (some file)]
      ⟨[file], none, some tag.kind⟩ := by
    refine ⟨rfl, ?_, rfl, ?_, fun u hu => (by cases hu), rfl⟩
    · simp [braces, hbraces.1]
    · simp [openings, closings, hbraces]
  obtain ⟨scopes, htracks⟩ := (Tracks.start 0 0).step (s := {}) (t := tag) (xs ++ ys) (Int.le_refl 0) hindex
  rw [hstep] at htracks
  obtain rfl : scopes = [file] := htracks.record.symm.trans hfile.record
  obtain ⟨inner, hrun, htracks'⟩ := hfile.run htracks (by omega) ((numbered_append _ _ _).mp hrest).1
    (fun t ht => hkinds t (List.mem_append_left _ ht))
    (fun front hfront => hmatch.leading _
      (List.cons_prefix_cons.mpr ⟨rfl, hfront.trans (List.prefix_append _ _)⟩)) ys
  rw [Traversal.run_cons, hstep]
  exact ⟨file, inner, hindex, rfl, hrun, htracks'⟩

/-- The scope of the file stays innermost just where no brace waits; else it is the scope of a brace. -/
theorem exists_current (h : FollowsBraces file pre inner events s)
    (htracks : Tracks first next events (file :: inner) s.scopes) :
    ∃ a, s.current? = some a ∧ a ∈ file :: inner ∧ a.last = none ∧
      (a = file ∨ ∃ o, (o, .waits 0) ∈ braces pre ∧ a.first = o.index) ∧
      ∀ o k, (o, .waits k) ∈ braces pre → file.first < o.index ∧ o.index ≤ a.first := by
  obtain ⟨a, outer, hstack⟩ : ∃ a outer, s.scopes = a :: outer := by
    cases hscopes : s.scopes with
    | nil =>
      have hbottom := h.bottom
      rw [hscopes] at hbottom
      cases hbottom
    | cons a outer => exact ⟨a, outer, rfl⟩
  have hsorted := htracks.stack_sorted
  rw [hstack] at hsorted
  obtain ⟨hbelow, -⟩ := List.pairwise_cons.mp hsorted
  have hfile : ∀ x ∈ inner, file.first < x.first := (List.pairwise_cons.mp htracks.sorted).1
  obtain ⟨ha, hlast⟩ := htracks.mem_stack_iff.mp (hstack ▸ List.mem_cons_self .. : a ∈ s.scopes)
  refine ⟨a, by rw [Traversal.current?, hstack]; rfl, ha, hlast, ?_, fun o k ho => ?_⟩
  · rcases List.mem_cons.mp ha with rfl | ha
    · exact .inl rfl
    · obtain ⟨⟨o, known⟩, ho, hfirst, hknown⟩ := (exists_of_forall₂ h.stands).1 a ha
      cases known with
      | found c =>
        have hclosed : a.last = some c.index := hknown
        rw [hlast] at hclosed
        cases hclosed
      | waits k =>
        -- No scope below the innermost one is the innermost one.
        have hplace := hknown.2
        rw [hstack] at hplace
        cases k with
        | zero => exact .inr ⟨o, ho, hfirst⟩
        | succ k => exact absurd (hbelow a (List.mem_of_getElem? hplace)) (Int.lt_irrefl _)
  · obtain ⟨x, hx, hfirst, -, hplace⟩ := (exists_of_forall₂ h.stands).2 (o, .waits k) ho
    have hxfirst : x.first = o.index := hfirst
    have hxfile := hfile x hx
    refine ⟨by omega, ?_⟩
    have hmem := List.mem_of_getElem? hplace
    rw [hstack] at hmem
    rcases List.mem_cons.mp hmem with rfl | hmem
    · omega
    · have := hbelow x hmem
      omega

end FollowsBraces

/-! ## Tokens of a stream -/

/-- A token of a stream is passed once, in the scope that is innermost then. -/
theorem Traversal.passed_events_iff {front ys : List Token} {t : Token}
    (hnumbered : Numbered 0 (front ++ t :: ys)) {scope : Option Scope} :
    .passed t scope ∈ events (front ++ t :: ys) ↔ scope = (run ys {} (front ++ [t])).1.current? := by
  have hfront : t ∉ front := fun hmem => hnumbered.not_mem hmem (List.mem_cons_self ..)
  have hys : t ∉ ys := by
    rw [List.append_cons] at hnumbered
    exact hnumbered.not_mem (by simp)
  obtain ⟨last, hlast⟩ : ∃ last, events (front ++ t :: ys) =
      (run [] {} (front ++ t :: ys)).2 ++ (run [] {} (front ++ t :: ys)).1.finish last := ⟨_, rfl⟩
  have hcurrent : (run ys {} (front ++ [t])).1.current? =
      ((run (t :: ys) {} front).1.step t ys).1.current? := by
    rw [run_append, run_cons]
    rfl
  rw [hlast, hcurrent, run_append, run_cons, events_step]
  simp only [List.append_nil, List.mem_append, List.mem_singleton]
  constructor
  · rintro ((hpassed | (hpassed | hpassed) | hpassed) | hpassed)
    · exact absurd (mem_of_passed_run hpassed) hfront
    · exact absurd hpassed not_passed_process
    · cases hpassed
      rfl
    · exact absurd (mem_of_passed_run hpassed) hys
    · exact absurd hpassed not_passed_finish
  · rintro rfl
    exact .inl (.inr (.inl (.inr rfl)))

/-- A scope that is open after the beginning of a stream closes later. -/
theorem exists_reopen {xs ys : List Token} (hnumbered : Numbered 0 (xs ++ ys)) {next : Int}
    {scopes stack : List Scope} (htracks : Tracks 0 next (Traversal.run ys {} xs).2 scopes stack)
    {cur : Scope} (hmem : cur ∈ scopes) (hopen : cur.last = none) :
    ∃ a ∈ scopesOf (Traversal.events (xs ++ ys)), a.first = cur.first ∧ cur = a.reopen := by
  have hreopen : cur.reopen = cur := by
    cases cur
    simp_all [Scope.reopen]
  have hopened : .opened cur ∈ Traversal.events (xs ++ ys) := by
    obtain ⟨event, hevent, heq⟩ := List.mem_filterMap.mp (hreopen ▸ htracks.reopen_mem hmem)
    obtain ⟨last, hlast⟩ : ∃ last, Traversal.events (xs ++ ys) = (Traversal.run [] {} (xs ++ ys)).2 ++
        (Traversal.run [] {} (xs ++ ys)).1.finish last := ⟨_, rfl⟩
    rw [hlast, Traversal.run_append, List.append_nil]
    cases event with
    | opened scope =>
      cases heq
      exact List.mem_append_left _ (List.mem_append_left _ hevent)
    | _ => cases heq
  exact (attributed_events hnumbered).1.exists_of_opened hopened

/-! ## Whole traversals -/

/-- A scope is that of a pair of braces: it starts at the opening one and ends at the closing one. -/
def IsScopeOf (a : Scope) (p : Token × Token) : Prop := a.first = p.1.index ∧ a.last = some p.2.index

/-- Where every brace has found its partner, the scopes are those of the pairs. -/
theorem isScopeOf_of_standsFor {stack scopes : List Scope} {found : List (Token × Partner)}
    (h : List.Forall₂ (StandsFor stack) scopes found) (hfound : ∀ b ∈ found, ∃ c, b.2 = .found c) :
    List.Forall₂ IsScopeOf scopes (found.filterMap fun b => b.2.found?.map (b.1, ·)) := by
  induction h with
  | nil => exact .nil
  | @cons a b scopes found hstands _ ih =>
    obtain ⟨⟨c, hc⟩, hrest⟩ := List.forall_mem_cons.mp hfound
    obtain ⟨o, known⟩ := b
    obtain rfl : known = .found c := hc
    exact .cons ⟨hstands.1, hstands.2⟩ (ih hrest)

theorem countP_eq_of_forall₂ {α β : Type} {R : α → β → Prop} {f : α → Bool} {g : β → Bool} {xs : List α}
    {ys : List β} (h : List.Forall₂ R xs ys) (hfg : ∀ x y, R x y → f x = g y) :
    xs.countP f = ys.countP g := by
  induction h with
  | nil => rfl
  | cons hxy _ ih => rw [List.countP_cons, List.countP_cons, hfg _ _ hxy, ih]

/-- A scope is that of the innermost pair that is open after the token at a position, or that of the file
where no pair is open. -/
def IsInnermostAt (pairs : List (Token × Token)) (index : Int) (a : Scope) : Prop :=
  (∃ p ∈ pairs, IsScopeOf a p ∧ IsOpenAt p index ∧
      ∀ q ∈ pairs, IsOpenAt q index → q = p ∨ Surrounds q p) ∨
    a.level = 0 ∧ ∀ p ∈ pairs, ¬IsOpenAt p index

section

variable {tag : Token} {rest : List Token} (htag : tag.kind = .openTag)
  (hnumbered : Numbered 0 (tag :: rest)) (hkinds : ∀ t ∈ tag :: rest, t.kind ≠ .namespaceKeyword)
  (hmatch : BracesMatch (tag :: rest))

include htag hnumbered hkinds hmatch

/-- The scopes of a stream with matching braces are that of the file and those of the pairs. -/
theorem exists_scopes_of_match : ∃ (file : Scope) (inner : List Scope), file.first = 0 ∧ file.level = 0 ∧
    (∀ a ∈ inner, file.first < a.first) ∧
    scopesOf (Traversal.events (tag :: rest)) = file.close rest.length :: inner ∧
    List.Forall₂ IsScopeOf inner (bracePairs (tag :: rest)) ∧
    (Traversal.events (tag :: rest)).filterMap Event.warning? = [] := by
  obtain ⟨file, inner, hfirst, hlevel, hfollows, htracks⟩ :=
    @FollowsBraces.exists_of_front tag rest [] htag (by simpa using hnumbered) (by simpa using hkinds)
      (by simpa using hmatch)
  have hstack : (Traversal.run [] {} (tag :: rest)).1.scopes = [file] := by
    have hdepth := hfollows.depth
    have hbottom := hfollows.bottom
    rw [hmatch.total] at hdepth
    have hlength : (Traversal.run [] {} (tag :: rest)).1.scopes.length = 1 := by omega
    obtain ⟨a, ha⟩ := List.length_eq_one_iff.mp hlength
    rw [ha] at hbottom ⊢
    cases hbottom
    rfl
  have hlast : ((tag :: rest).getLast?.map Token.index).getD (-1) = rest.length := by
    rw [lastIndex_eq hnumbered, List.length_cons]
    omega
  have hevents : Traversal.events (tag :: rest) =
      (Traversal.run [] {} (tag :: rest)).2 ++ [.closed (file.close rest.length)] := by
    have hfinish : Traversal.events (tag :: rest) = (Traversal.run [] {} (tag :: rest)).2 ++
        (Traversal.run [] {} (tag :: rest)).1.finish
          (((tag :: rest).getLast?.map Token.index).getD (-1)) := rfl
    rw [hfinish, hlast, Traversal.finish, hstack]
    rfl
  have hinner : ∀ a ∈ inner, file.first < a.first := (List.pairwise_cons.mp htracks.sorted).1
  refine ⟨file, inner, hfirst, hlevel, hinner, ?_, ?_, ?_⟩
  · rw [hevents, scopesOf_append, hfollows.record]
    exact @Tracks.recordScope_closed file [] inner rest.length (by simp)
      fun a ha => Int.ne_of_gt (hinner a ha)
  · exact isScopeOf_of_standsFor hfollows.stands fun b hb => hmatch.exists_found hb
  · rw [hevents, List.filterMap_append, hfollows.silent]
    rfl

omit htag hkinds hmatch in
/-- The scope of a pair is one level deeper than the pairs around it are many. -/
theorem level_of_pair {file a : Scope} {inner : List Scope} {p : Token × Token}
    (hscopes : scopesOf (Traversal.events (tag :: rest)) = file.close rest.length :: inner)
    (hinner : List.Forall₂ IsScopeOf inner (bracePairs (tag :: rest))) (ha : a ∈ inner)
    (hfile : file.first < a.first) (hp : p ∈ bracePairs (tag :: rest)) (hap : IsScopeOf a p) :
    a.level = 1 + (bracePairs (tag :: rest)).countP (Surrounds · p) := by
  obtain ⟨hfirst, -⟩ := hap
  have hspan : (file.close rest.length).spans a.first = true := by
    have hend := (hnumbered.index_mem (mem_of_mem_bracePairs hp).1).2
    rw [List.length_cons] at hend
    have hwithin : a.first ≤ (rest.length : Int) := by omega
    exact Bool.and_eq_true_iff.mpr ⟨decide_eq_true hfile, decide_eq_true hwithin⟩
  have hcount : inner.countP (·.spans a.first) = (bracePairs (tag :: rest)).countP (Surrounds · p) := by
    refine countP_eq_of_forall₂ (forall₂_mem hinner) fun x q ⟨_, hq, hxq⟩ => ?_
    have hlt := lt_of_mem_bracePairs hnumbered hp
    have hnested := bracePairs_nested hnumbered hq hp
    rw [Bool.eq_iff_iff]
    simp only [Scope.spans, hxq.1, hxq.2, hfirst, Option.all_some, Bool.and_eq_true, decide_eq_true_eq]
    constructor
    · rintro ⟨hbefore, hend⟩
      exact (hnested hbefore).resolve_left (by omega)
    · rintro ⟨hbefore, hend⟩
      exact ⟨hbefore, by omega⟩
  have hlevel := (wellNested_events hnumbered).level a (hscopes ▸ List.mem_cons_of_mem _ ha)
  rw [hscopes, List.countP_cons, if_pos hspan, hcount] at hlevel
  omega

/-- Where a pair of a stream with matching braces opens, its scope starts. -/
theorem isScopeOf_of_first {a : Scope} {p : Token × Token} (hp : p ∈ bracePairs (tag :: rest))
    (ha : a ∈ scopesOf (Traversal.events (tag :: rest))) (hfirst : a.first = p.1.index) : IsScopeOf a p := by
  obtain ⟨file, inner, -, -, -, hscopes, hinner, -⟩ := exists_scopes_of_match htag hnumbered hkinds hmatch
  obtain ⟨x, hx, hxp⟩ := (exists_of_forall₂ hinner).2 p hp
  have hmem : x ∈ scopesOf (Traversal.events (tag :: rest)) := by
    rw [hscopes]
    exact List.mem_cons_of_mem _ hx
  rwa [(attributed_events hnumbered).1.eq_of_first hmem ha (hxp.1.trans hfirst.symm)] at hxp

/-- A token of a stream with matching braces is passed in the scope of the innermost pair that is open. -/
theorem exists_passed_of_match {t : Token} (ht : t ∈ tag :: rest) :
    ∃ a ∈ scopesOf (Traversal.events (tag :: rest)),
      (∀ scope, .passed t scope ∈ Traversal.events (tag :: rest) ↔ scope = some a.reopen) ∧
        IsInnermostAt (bracePairs (tag :: rest)) t.index a := by
  obtain ⟨xs, ys, front, rfl, hfront⟩ := exists_front_of_mem ht
  obtain ⟨file, inner, -, hlevel, hfollows, htracks⟩ :=
    FollowsBraces.exists_of_front htag hnumbered hkinds hmatch
  obtain ⟨cur, hcurrent, hmem, hopen, hbrace, hwaiting⟩ := hfollows.exists_current htracks
  have hwhole : tag :: (xs ++ ys) = front ++ t :: ys := by
    rw [← List.cons_append, hfront, List.append_assoc]
    rfl
  have hnumbered' := hnumbered
  rw [hwhole] at hnumbered'
  have hpassed (scope : Option Scope) :
      .passed t scope ∈ Traversal.events (tag :: (xs ++ ys)) ↔ scope = some cur := by
    rw [hwhole, Traversal.passed_events_iff hnumbered', ← hfront, hcurrent]
  -- The scope that is innermost after the token is known by what it is in the end.
  obtain ⟨a, ha, hfirst, rfl⟩ : ∃ a ∈ scopesOf (Traversal.events (tag :: (xs ++ ys))),
      a.first = cur.first ∧ cur = a.reopen := by
    rw [← List.cons_append] at hnumbered ⊢
    exact exists_reopen hnumbered htracks hmem hopen
  refine ⟨a, ha, hpassed, ?_⟩
  have hxs : ∀ u ∈ tag :: xs, u.index ≤ t.index := by
    rw [hfront, List.forall_mem_append, List.forall_mem_singleton]
    exact ⟨fun u hu => Int.le_of_lt (hnumbered'.lt_of_mem hu (List.mem_cons_self ..)), Int.le_refl _⟩
  have hys : ∀ u ∈ ys, t.index < u.index := by
    rw [List.append_cons] at hnumbered'
    exact fun u hu => hnumbered'.lt_of_mem (by simp) hu
  have hwaits {p : Token × Token} (hp : p ∈ bracePairs (tag :: (xs ++ ys))) (hp' : IsOpenAt p t.index) :
      file.first < p.1.index ∧ p.1.index ≤ a.first := by
    obtain ⟨k, hk⟩ := exists_waits_of_isOpenAt hxs hys hp hp'
    exact hwaiting p.1 k hk
  rcases hbrace with hfile | ⟨o, ho, hao⟩
  · refine .inr ⟨(congrArg Scope.level hfile).trans hlevel, fun p hp hp' => ?_⟩
    have hafirst : a.reopen.first = file.first := congrArg Scope.first hfile
    rw [← hfirst] at hafirst
    have hpfirst := hwaits hp hp'
    omega
  · obtain ⟨c, hoc, hopenAt⟩ := exists_isOpenAt_of_waits hmatch hxs hys ho
    have hafirst : a.first = o.index := hao
    refine .inl ⟨(o, c), hoc, isScopeOf_of_first htag hnumbered hkinds hmatch hoc ha hafirst, hopenAt,
      fun q hq hq' => ?_⟩
    exact eq_or_surrounds_of_isOpenAt hnumbered hoc hq hopenAt hq' (hafirst ▸ (hwaits hq hq').2)

end

theorem length_of_readTokens {raws : List RawToken} {index : Int} {tokens : List Token}
    (hread : readTokens index raws = (tokens, none)) : tokens.length = raws.length := by
  induction raws generalizing index tokens with
  | nil =>
    cases hread
    rfl
  | cons raw rest ih =>
    simp only [readTokens] at hread
    cases hraw : Token.ofRaw raw index with
    | error fault =>
      rw [hraw] at hread
      cases hread
    | ok t =>
      rw [hraw] at hread
      obtain ⟨rfl, hfault⟩ := Prod.mk.inj hread
      exact congrArg (· + 1) (ih (Prod.ext rfl hfault))

/-- A traversal of a whole stream that can be read passes its tokens and closes what is open. -/
theorem Visitor.traverse_of_read {raws : List RawToken} {tokens : List Token}
    (hread : readTokens 0 raws = (tokens, none)) :
    (ofTokens raws).traverse.2 = ⟨Traversal.events tokens, none⟩ := by
  have hnumbered : Numbered 0 tokens := by
    have h := numbered_readTokens raws 0
    rwa [hread] at h
  have hslice : TokenRange.slice ⟨0, raws.length⟩ raws = raws := by
    rw [TokenRange.slice, List.take_length, List.drop_zero]
  have hlast : ((raws.length : Nat) : Int) - 1 = (tokens.getLast?.map Token.index).getD (-1) := by
    rw [lastIndex_eq hnumbered, length_of_readTokens hread]
  simp only [traverse, visit, ofTokens, hslice, Int.natCast_zero, hread, Option.isSome_none,
    Bool.false_eq_true, if_false, Option.any_none, List.drop_length, hlast]
  rfl

/-- The outline of a scope: where it starts, where it ends, and its level. -/
def Scope.outline (a : Scope) : Int × Option Int × Nat := (a.first, a.last, a.level)

/-- A traversal of a stream that begins with an open tag, without namespaces and with matching braces:
apart from the scope of the file there is one scope for each pair of braces, in the order of their opening
ones, one level deeper than the pairs around it are many. No bracket is reported as unbalanced. After each
token the current scope is that of the innermost pair that is open. -/
theorem scopes_of_braces {raws : List RawToken} {tag : Token} {rest : List Token}
    (hread : readTokens 0 raws = (tag :: rest, none)) (htag : tag.kind = .openTag)
    (hkinds : ∀ t ∈ tag :: rest, t.kind ≠ .namespaceKeyword) (hmatch : BracesMatch (tag :: rest)) :
    let visit := (Visitor.ofTokens raws).traverse.2
    let pairs := bracePairs (tag :: rest)
    visit.fault = none ∧
      (scopesOf visit.events).map Scope.outline = (0, some (rest.length : Int), 0) ::
        pairs.map (fun p => (p.1.index, some p.2.index, 1 + pairs.countP (Surrounds · p))) ∧
      visit.events.filterMap Event.warning? = [] ∧
      ∀ t ∈ tag :: rest, ∃ a ∈ scopesOf visit.events,
        (∀ scope, .passed t scope ∈ visit.events ↔ scope = some a.reopen) ∧
          IsInnermostAt pairs t.index a := by
  have hnumbered : Numbered 0 (tag :: rest) := by
    have h := numbered_readTokens raws 0
    rwa [hread] at h
  obtain ⟨file, inner, hfirst, hlevel, hafter, hscopes, hinner, hsilent⟩ :=
    exists_scopes_of_match htag hnumbered hkinds hmatch
  intro visit pairs
  rw [show visit = ⟨Traversal.events (tag :: rest), none⟩ from Visitor.traverse_of_read hread]
  refine ⟨rfl, ?_, hsilent, fun t ht => exists_passed_of_match htag hnumbered hkinds hmatch ht⟩
  have hfile : (file.close rest.length).outline = (0, some (rest.length : Int), 0) := by
    rw [Scope.outline, Scope.first_close, hfirst]
    exact congrArg (fun level => ((0 : Int), some (rest.length : Int), level)) hlevel
  have houtlines : inner.map Scope.outline =
      pairs.map fun p => (p.1.index, some p.2.index, 1 + pairs.countP (Surrounds · p)) := by
    rw [← List.forall₂_eq_eq_eq, List.forall₂_map_left_iff, List.forall₂_map_right_iff]
    refine (forall₂_mem hinner).imp fun a p ⟨ha, hp, hap⟩ => ?_
    have hdepth := level_of_pair hnumbered hscopes hinner ha (hafter a ha) hp hap
    rw [Scope.outline, hap.1, hap.2, hdepth]
  rw [hscopes, List.map_cons, hfile, houtlines]

/-- A function whose body has a block inside, another open tag within the block, and a block behind. -/
theorem scopes_of_braces_function :
    let raws : List RawToken := [.entry "T_OPEN_TAG" "<?php" 1, .entry "T_FUNCTION" "function" 1,
      .entry "T_STRING" "f" 1, .bare "(", .bare ")", .bare "\x7b", .bare "\x7b",
      .entry "T_OPEN_TAG" "<?php" 2, .bare "\x7d", .bare ";", .bare "\x7d", .bare "\x7b", .bare "\x7d"]
    let tokens := (readTokens 0 raws).1
    let visit := (Visitor.ofTokens raws).traverse.2
    (readTokens 0 raws).2 = none ∧ tokens.head?.map Token.kind = some .openTag ∧
      (∀ t ∈ tokens, t.kind ≠ .namespaceKeyword) ∧ BracesMatch tokens ∧ visit.fault = none ∧
        (scopesOf visit.events).map Scope.outline =
          [(0, some 12, 0), (5, some 10, 1), (6, some 8, 2), (11, some 12, 1)] ∧
        visit.events.filterMap Event.warning? = [] ∧
        ∀ t ∈ tokens, ∃ a ∈ scopesOf visit.events,
          (∀ scope, .passed t scope ∈ visit.events ↔ scope = some a.reopen) ∧
            IsInnermostAt (bracePairs tokens) t.index a := by
  intro raws tokens visit
  have hkinds : ∀ t ∈ tokens, t.kind ≠ .namespaceKeyword := by decide +kernel
  have hmatch : BracesMatch tokens := by decide +kernel
  obtain ⟨hfault, hscopes, hsilent, hpassed⟩ := @scopes_of_braces raws _ _ rfl rfl hkinds hmatch
  refine ⟨rfl, rfl, hkinds, hmatch, hfault, hscopes.trans ?_, hsilent, hpassed⟩
  decide +kernel

end Reflection
