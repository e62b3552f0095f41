import Mathlib.Data.List.Pairwise
import Reflection.Proofs.Program.Places
import Reflection.Proofs.Scope.Ownership

/-!
# Scopes around scopes and positions

The scopes of a whole traversal nest, so those around a position form a chain in which the level
grows inwards, and those around a scope have an innermost one, whose owner is the parent of the scope.

## Main definitions

* `Scope.ImmediatelyEncloses`: a scope is the innermost one around another.

## Main statements

* `WellNested.level_lt`: levels grow inwards.
* `WellNested.encloses_or_of_contains`: the scopes around a position form a chain.
* `parent_of_immediatelyEncloses`: the parent of a scope is the owner of the one around it.
-/
namespace Reflection

namespace Scope

theorem Encloses.trans {a b c : Scope} (hab : a.Encloses b) (hbc : b.Encloses c) : a.Encloses c := by
  obtain ⟨hfirst, last, inner, hlast, hinner, hle⟩ := hab
  obtain ⟨hfirst', last', inner', hlast', hinner', hle'⟩ := hbc
  cases hinner.symm.trans hlast'
  exact ⟨by omega, last, inner', hlast, hinner', by omega⟩

/-- Of the scopes around a scope, all others are around this one too. -/
def ImmediatelyEncloses (scopes : List Scope) (a b : Scope) : Prop :=
  a ∈ scopes ∧ a.Encloses b ∧ ∀ c ∈ scopes, c.Encloses b → c = a ∨ c.Encloses a

end Scope

namespace WellNested

variable {first stop : Int} {events : List Event} (h : WellNested first stop events) {a b : Scope}

include h

/-- Two scopes are disjoint, or one of them encloses the other. -/
theorem cases_of_ne (ha : a ∈ scopesOf events) (hb : b ∈ scopesOf events) (hne : a ≠ b) :
    (a.EndsBefore b ∨ a.Encloses b) ∨ (b.EndsBefore a ∨ b.Encloses a) := by
  have hsymmetric : Std.Symm fun a b : Scope =>
      (a.EndsBefore b ∨ a.Encloses b) ∨ (b.EndsBefore a ∨ b.Encloses a) := ⟨fun _ _ => Or.symm⟩
  have hpairwise : (scopesOf events).Pairwise fun a b =>
      (a.EndsBefore b ∨ a.Encloses b) ∨ (b.EndsBefore a ∨ b.Encloses a) := h.nested.imp Or.inl
  exact hpairwise.forall ha hb hne

/-- Of two scopes, the one that starts first ends before the other one starts or encloses it. -/
theorem cases_of_lt (ha : a ∈ scopesOf events) (hb : b ∈ scopesOf events)
    (hlt : a.first < b.first) : a.EndsBefore b ∨ a.Encloses b := by
  have hne : a ≠ b := fun heq => by rw [heq] at hlt; omega
  rcases h.cases_of_ne ha hb hne with hab | hbefore | hencloses
  · exact hab
  · obtain ⟨last, hlast, hend⟩ := hbefore
    obtain ⟨last', hlast', -, hle, -⟩ := h.within b hb
    cases hlast.symm.trans hlast'
    omega
  · have := hencloses.1
    omega

/-- The scopes that span the start of a scope are those that enclose it. -/
theorem spans_iff_encloses (ha : a ∈ scopesOf events) (hb : b ∈ scopesOf events) :
    a.spans b.first = true ↔ a.Encloses b := by
  obtain ⟨last, hlast, -, hle, -⟩ := h.within a ha
  obtain ⟨last', hlast', -, hle', -⟩ := h.within b hb
  have hspans : a.spans b.first = true ↔ a.first < b.first ∧ b.first ≤ last := by
    simp [Scope.spans, hlast]
  rw [hspans]
  constructor
  · rintro ⟨hlt, hend⟩
    rcases h.cases_of_lt ha hb hlt with ⟨last'', hlast'', hbefore⟩ | hencloses
    · cases hlast.symm.trans hlast''
      omega
    · exact hencloses
  · rintro ⟨hlt, outer, inner, houter, hinner, hend⟩
    cases hlast.symm.trans houter
    cases hlast'.symm.trans hinner
    exact ⟨hlt, by omega⟩

/-- Levels grow inwards: what is around the outer scope is around the inner one, and so is the outer
scope itself. -/
theorem level_lt (ha : a ∈ scopesOf events) (hb : b ∈ scopesOf events) (hab : a.Encloses b) :
    a.level < b.level := by
  rw [h.level a ha, h.level b hb]
  have hmono : ∀ c ∈ scopesOf events, c.spans a.first = true → c.spans b.first = true := by
    intro c hc hspans
    exact (h.spans_iff_encloses hc hb).mpr (((h.spans_iff_encloses hc ha).mp hspans).trans hab)
  have hself : a.spans a.first = false := by simp [Scope.spans]
  have hinner : a.spans b.first = true := (h.spans_iff_encloses ha hb).mpr hab
  obtain ⟨before, after, hsplit⟩ := List.append_of_mem ha
  rw [hsplit] at hmono ⊢
  simp only [List.forall_mem_append, List.forall_mem_cons] at hmono
  have hbefore := List.countP_mono_left hmono.1
  have hafter := List.countP_mono_left hmono.2.2
  simp only [List.countP_append, List.countP_cons, hself, hinner]
  simp only [Bool.false_eq_true, if_false, if_true]
  omega

/-- The scopes around a position form a chain. -/
theorem encloses_or_of_contains {index : Int} (ha : a ∈ scopesOf events) (hb : b ∈ scopesOf events)
    (hindex : a.contains index = true) (hindex' : b.contains index = true) :
    a = b ∨ a.Encloses b ∨ b.Encloses a := by
  have hnot : ∀ {a b : Scope}, a.contains index = true → b.contains index = true →
      ¬ a.EndsBefore b := by
    intro a b ha hb ⟨last, hlast, hbefore⟩
    simp only [Scope.contains, hlast, Option.all_some, Bool.and_eq_true, decide_eq_true_eq] at ha hb
    omega
  by_cases hne : a = b
  · exact .inl hne
  · rcases h.cases_of_ne ha hb hne with (hbefore | hab) | hbefore | hba
    · exact absurd hbefore (hnot hindex hindex')
    · exact .inr (.inl hab)
    · exact absurd hbefore (hnot hindex' hindex)
    · exact .inr (.inr hba)

end WellNested

/-! ## Whole traversals -/

section

variable {tokens : List Token} (hnumbered : Numbered 0 tokens)

include hnumbered

/-- At the end of a stream every scope has closed, and belongs to a token of the stream. -/
theorem attributed_events :
    Tracks 0 tokens.length (Traversal.events tokens) (scopesOf (Traversal.events tokens)) [] ∧
      ∃ pending, Attributed tokens tokens.length (Traversal.events tokens) pending := by
  obtain ⟨scopes, hrun⟩ := (Tracks.start 0 0).run (s := {}) [] (Int.le_refl 0) hnumbered
  have hattributed := (Attributed.start tokens 0).run (s := {}) [] (Tracks.start 0 0)
    (Int.le_refl 0) hnumbered fun t ht => ht
  rw [Int.zero_add, List.nil_append] at hrun hattributed
  obtain ⟨scopes', hfinish⟩ := hrun.finish (Int.le_refl _)
  have hend := hattributed.finish hrun (Int.le_refl _)
  have hevents : Traversal.events tokens = (Traversal.run [] {} tokens).2 ++
      (Traversal.run [] {} tokens).1.scopes.map
        fun s => .closed (s.close ((tokens.length : Int) - 1)) := by
    rw [← lastIndex_eq hnumbered]
    rfl
  rw [← hevents] at hfinish hend
  exact ⟨hfinish.record ▸ hfinish, _, hend⟩

/-- The scopes that close are all the scopes of the stream. -/
theorem mem_closedScopes_events (a : Scope) :
    a ∈ closedScopes (Traversal.events tokens) ↔ a ∈ scopesOf (Traversal.events tokens) := by
  rw [(attributed_events hnumbered).1.mem_closedScopes_iff a]
  refine ⟨And.left, fun ha => ⟨ha, ?_⟩⟩
  obtain ⟨last, hlast, -⟩ := (wellNested_events hnumbered).within a ha
  rw [hlast]
  rfl

/-- The owner of a scope is a token of the stream, and stands before the scope unless it is an open
tag. -/
theorem owner_closedScopes {s : Scope} (hs : s ∈ closedScopes (Traversal.events tokens)) {t : Token}
    (ht : s.owner = some t) : t ∈ tokens ∧ (t.kind ≠ .openTag → t.index < s.first) := by
  obtain ⟨-, pending, hattributed⟩ := attributed_events hnumbered
  exact hattributed.owner s ((mem_closedScopes_events hnumbered s).mp hs) t ht

/-- The parent of a scope is the owner of the scope immediately around it. -/
theorem parent_of_immediatelyEncloses {a b : Scope}
    (hb : b ∈ closedScopes (Traversal.events tokens))
    (hab : a.ImmediatelyEncloses (closedScopes (Traversal.events tokens)) b) : b.parent = a.owner := by
  obtain ⟨htracks, pending, hattributed⟩ := attributed_events hnumbered
  have hnested := wellNested_events hnumbered
  obtain ⟨ha, hencloses, hinnermost⟩ := hab
  rw [mem_closedScopes_events hnumbered] at ha hb
  have hmem : ∀ c, c ∈ (scopesOf (Traversal.events tokens)).filter (·.spans b.first) ↔
      c ∈ scopesOf (Traversal.events tokens) ∧ c.Encloses b := by
    intro c
    rw [List.mem_filter]
    exact and_congr_right fun hc => hnested.spans_iff_encloses hc hb
  have henclosing : enclosing? (scopesOf (Traversal.events tokens)) b = some a := by
    obtain ⟨before, c, hlast⟩ : ∃ before c,
        (scopesOf (Traversal.events tokens)).filter (·.spans b.first) = before ++ [c] := by
      rcases List.eq_nil_or_concat
        ((scopesOf (Traversal.events tokens)).filter (·.spans b.first)) with hnil | ⟨before, c, hc⟩
      · have := (hmem a).mpr ⟨ha, hencloses⟩
        rw [hnil] at this
        cases this
      · exact ⟨before, c, by rw [hc, List.concat_eq_append]⟩
    -- The last scope around `b` encloses `a` or is `a` itself, but no scope starts after the last one.
    have hsorted := htracks.sorted.filter (·.spans b.first)
    simp only [hlast, List.mem_append, List.mem_singleton, List.pairwise_append] at hmem hsorted
    obtain ⟨hc, hcb⟩ := (hmem c).mp (.inr rfl)
    have hca : c = a := by
      rcases hinnermost c ((mem_closedScopes_events hnumbered c).mpr hc) hcb with heq | hca
      · exact heq
      · rcases (hmem a).mpr ⟨ha, hencloses⟩ with hbefore | heq
        · have hlt := hsorted.2.2 a hbefore c rfl
          have := hca.1
          omega
        · exact heq.symm
    rw [enclosing?, hlast, List.getLast?_concat, hca]
  rw [hattributed.parent b hb, henclosing]
  rfl

end

end Reflection
