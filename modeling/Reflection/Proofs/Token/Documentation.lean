import Mathlib.Data.List.Induction
import Mathlib.Tactic.SplitIfs
import Reflection.Proofs.Token
import Reflection.Token.Stream

/-!
# Documentation before a position

Documentation comments stand before what they document, with white space, other comments and modifiers
between. What is found up to a position are the comments after the last other token, in the order in which
they stand there; it does not depend on anything up to that token.

## Main definitions

* `IsLastPosition`: the last position at which something holds.
* `Token.IsPassedOver`: the tokens that may stand between documentation and what it documents.
* `Token.documentation`: the documentation comments of a list of tokens.

## Main statements

* `Token.docCommentBefore_append`, `Token.docCommentBefore_cut`: tokens that are passed over, and one that
  is not.
* `Token.docCommentAt?_of_isLastPosition`, `Token.docCommentAt?_cut`: where the way back ends.
* `Token.docCommentAt?_eq`: the documentation up to a position.
-/
namespace Reflection

open Text

/-! ## Last positions -/

section

variable {α : Type} {p : α → Prop} {xs : List α} {index j j' : Int}

/-- The last position up to `index` of an element that satisfies `p`; minus one if there is none. -/
structure IsLastPosition (p : α → Prop) (xs : List α) (index j : Int) : Prop where
  neg_one_le : -1 ≤ j
  le : j = -1 ∨ j ≤ index
  holds : ∀ n : Nat, j = n → ∃ x, xs[n]? = some x ∧ p x
  later : ∀ (n : Nat) (x : α), j < n → n ≤ index → xs[n]? = some x → ¬ p x

theorem exists_isLastPosition (p : α → Prop) (xs : List α) (index : Int) :
    ∃ j, IsLastPosition p xs index j := by
  induction hcount : (index + 1).toNat generalizing index with
  | zero => exact ⟨-1, Int.le_refl _, .inl rfl, fun n hn => by omega, fun n x _ hn => by omega⟩
  | succ last ih =>
    by_cases hhere : ∃ x, xs[last]? = some x ∧ p x
    · refine ⟨last, by omega, .inr (by omega), fun n hn => ?_, fun n x hlater hn => by omega⟩
      obtain rfl : last = n := by omega
      exact hhere
    · obtain ⟨j, hj⟩ := ih (index - 1) (by omega)
      have hle := hj.le
      refine ⟨j, hj.neg_one_le, by omega, hj.holds, fun n x hlater hn hx hp => ?_⟩
      by_cases hlast : n = last
      · exact hhere ⟨x, hlast ▸ hx, hp⟩
      · exact hj.later n x hlater (by omega) hx hp

theorem IsLastPosition.not_lt (h : IsLastPosition p xs index j) (h' : IsLastPosition p xs index j') :
    ¬ j < j' := by
  intro hlt
  have hlower := h.neg_one_le
  have hle := h'.le
  obtain ⟨x, hx, hp⟩ := h'.holds j'.toNat (by omega)
  exact h.later j'.toNat x (by omega) (by omega) hx hp

theorem IsLastPosition.unique (h : IsLastPosition p xs index j) (h' : IsLastPosition p xs index j') :
    j' = j :=
  Int.le_antisymm (Int.not_lt.mp (h.not_lt h')) (Int.not_lt.mp (h'.not_lt h))

end

namespace Token

/-! ## Tokens that are passed over -/

/-- A token may stand between documentation and what it documents: it is ignorable, or its text is one of
`skip` in any letter case. -/
def IsPassedOver (skip : List String) (t : Token) : Prop :=
  t.isIgnorable = true ∨ ∃ s ∈ skip, lower s = lower t.text

instance (skip : List String) (t : Token) : Decidable (t.IsPassedOver skip) :=
  inferInstanceAs (Decidable (_ ∨ _))

/-- The documentation comments of a list of tokens, one after the other. -/
def documentation (ts : List Token) : String := spelling (ts.filter (·.kind == .docComment))

theorem documentation_append (ts us : List Token) :
    documentation (ts ++ us) = documentation ts ++ documentation us := by
  rw [documentation, List.filter_append, spelling_append]
  rfl

theorem documentation_singleton (t : Token) :
    documentation [t] = if t.kind = .docComment then t.text else "" := by
  by_cases hdoc : t.kind = .docComment <;> simp [documentation, hdoc, spelling_cons]

variable {skip skipped : List String} {t : Token} {ts : List Token}

theorem isPassedOver_iff :
    t.IsPassedOver skip ↔ lower t.text ∈ skip.map lower ∨ t.isIgnorable = true := by
  rw [IsPassedOver, List.mem_map, or_comm]

/-- What is passed over adds its documentation. -/
theorem docCommentBefore_append (h : ∀ t ∈ ts, lower t.text ∈ skipped ∨ t.isIgnorable = true)
    (before : List Token) :
    docCommentBefore skipped (before ++ ts).reverse =
      docCommentBefore skipped before.reverse ++ documentation ts := by
  induction ts using List.reverseRecOn with
  | nil => simp [documentation]
  | append_singleton ts t ih =>
    obtain ⟨hts, ht⟩ := List.forall_mem_append.mp h
    have hstep := ht t (List.mem_singleton_self t)
    rw [← List.append_assoc, List.reverse_append, List.reverse_singleton, List.singleton_append,
      docCommentBefore, ih hts, documentation_append, documentation_singleton, if_pos hstep]
    split_ifs <;> simp [String.append_assoc]

/-- Nothing up to a token that is not passed over counts. -/
theorem docCommentBefore_cut (h : ¬ (lower t.text ∈ skipped ∨ t.isIgnorable = true))
    (before ts : List Token) :
    docCommentBefore skipped (before ++ t :: ts).reverse = docCommentBefore skipped ts.reverse := by
  have hkind : t.kind ≠ .docComment := fun hdoc => h (.inr (by rw [isIgnorable, hdoc]; rfl))
  induction ts using List.reverseRecOn with
  | nil =>
    rw [List.reverse_append, List.reverse_singleton, List.singleton_append, docCommentBefore,
      if_neg hkind, if_neg h]
    rfl
  | append_singleton ts u ih =>
    have hlast : (before ++ t :: (ts ++ [u])).reverse = u :: (before ++ t :: ts).reverse := by simp
    have hlast' : (ts ++ [u]).reverse = u :: ts.reverse := by simp
    rw [hlast, hlast', docCommentBefore, docCommentBefore, ih]

/-! ## Documentation up to a position -/

/-- What is passed over on the way back from a position is all that stands behind the last token that is
not. -/
theorem docCommentAt?_of_isLastPosition {tokens : List Token} {index j : Int} (h : index < tokens.length)
    (hj : IsLastPosition (fun t => ¬ t.IsPassedOver skip) tokens index j) :
    docCommentAt? tokens index skip =
      some (documentation ((tokens.take (index + 1).toNat).drop (j + 1).toNat)) := by
  have hlower := hj.neg_one_le
  have hle := hj.le
  have hpassed : ∀ t ∈ (tokens.take (index + 1).toNat).drop (j + 1).toNat,
      lower t.text ∈ skip.map lower ∨ t.isIgnorable = true := by
    intro t ht
    obtain ⟨n, hn⟩ := List.mem_iff_getElem?.mp ht
    rw [List.getElem?_drop, List.getElem?_take] at hn
    split_ifs at hn with hbound
    exact isPassedOver_iff.mp (not_not.mp (hj.later _ t (by omega) (by omega) hn))
  have hfront : docCommentBefore (skip.map lower)
      ((tokens.take (index + 1).toNat).take (j + 1).toNat).reverse = "" := by
    rw [List.take_take]
    by_cases hnone : j < 0
    · rw [show (j + 1).toNat = 0 by omega, Nat.zero_min, List.take_zero]
      rfl
    · obtain ⟨t, ht, hstops⟩ := hj.holds j.toNat (by omega)
      rw [show min (j + 1).toNat (index + 1).toNat = j.toNat + 1 by omega, List.take_add_one, ht,
        Option.toList_some]
      exact docCommentBefore_cut (mt isPassedOver_iff.mpr hstops) _ []
  have hall := docCommentBefore_append hpassed ((tokens.take (index + 1).toNat).take (j + 1).toNat)
  rw [List.take_append_drop, hfront, String.empty_append] at hall
  rw [docCommentAt?, if_neg (Int.not_le.mpr h), hall]

/-- The way back from a position ends at a token that is not passed over. -/
theorem docCommentAt?_cut {before after : List Token} {index : Int}
    (h : index < (before ++ t :: after).length) (hstops : ¬ t.IsPassedOver skip)
    (hin : (before.length : Int) ≤ index) :
    docCommentAt? (before ++ t :: after) index skip =
      docCommentAt? after (index - before.length - 1) skip := by
  have hafter : ¬ (after.length : Int) ≤ index - before.length - 1 := by
    rw [List.length_append, List.length_cons] at h
    omega
  have htake : (before ++ t :: after).take (index + 1).toNat =
      before ++ t :: after.take (index - before.length - 1 + 1).toNat := by
    have hcount : (index + 1).toNat - before.length = (index - before.length - 1 + 1).toNat + 1 := by
      omega
    rw [List.take_append, List.take_of_length_le (by omega), hcount, List.take_succ_cons]
  rw [docCommentAt?, docCommentAt?, if_neg (Int.not_le.mpr h), if_neg hafter, htake,
    docCommentBefore_cut (mt isPassedOver_iff.mpr hstops)]

/-- The documentation up to a position of a stream consists of the documentation comments after the last
token that is neither ignorable nor one of the texts to skip, in the order of the stream. Nothing that
stands before any such token plays a part: what is found is what a stream that begins after it would
give. -/
theorem docCommentAt?_eq {tokens : List Token} {index : Int} (h : index < tokens.length)
    (skip : List String) :
    (∃ j, IsLastPosition (fun t => ¬ t.IsPassedOver skip) tokens index j ∧
      (∀ j', IsLastPosition (fun t => ¬ t.IsPassedOver skip) tokens index j' → j' = j) ∧
      docCommentAt? tokens index skip =
        some (documentation ((tokens.take (index + 1).toNat).drop (j + 1).toNat))) ∧
    ∀ before t after, tokens = before ++ t :: after → ¬ t.IsPassedOver skip →
      (before.length : Int) ≤ index →
      docCommentAt? tokens index skip = docCommentAt? after (index - before.length - 1) skip := by
  constructor
  · obtain ⟨j, hj⟩ := exists_isLastPosition (fun t => ¬ t.IsPassedOver skip) tokens index
    exact ⟨j, hj, fun j' hj' => hj.unique hj', docCommentAt?_of_isLastPosition h hj⟩
  · rintro before t after rfl hstops hin
    exact docCommentAt?_cut h hstops hin

/-- Two comments with a modifier, white space and another comment between them are found in order; the
comment before the semicolon is not. -/
theorem docCommentAt?_eq_interleaved :
    let token (kind : TokenKind) (text : String) : Token := { kind, text }
    let tokens := [token .docComment "/** a */", token .punctuation ";", token .docComment "/** b */",
      token .whitespace " ", token .keyword "FINAL", token .comment "# c", token .docComment "/** d */",
      token .keyword "Abstract", token .classKeyword "class"]
    (7 : Int) < tokens.length ∧
      IsLastPosition (fun t => ¬ t.IsPassedOver ["final", "ABSTRACT"]) tokens 7 1 ∧
      docCommentAt? tokens 7 ["final", "ABSTRACT"] = some "/** b *//** d */" ∧
      docCommentAt? tokens 7 ["final", "ABSTRACT"] =
        docCommentAt? (tokens.drop 2) 5 ["final", "ABSTRACT"] := by
  intro token tokens
  have hin : (7 : Int) < tokens.length := by decide
  obtain ⟨⟨j, -, hunique, hdoc⟩, hcut⟩ := docCommentAt?_eq hin ["final", "ABSTRACT"]
  have hpassed : ∀ n < 8, 1 < n →
      (tokens[n]?.all fun t => decide (t.IsPassedOver ["final", "ABSTRACT"])) = true := by decide
  have hlast : IsLastPosition (fun t => ¬ t.IsPassedOver ["final", "ABSTRACT"]) tokens 7 1 := by
    refine ⟨by decide, by decide, fun n hn => ?_, fun n t hlater hle ht => ?_⟩
    · obtain rfl : n = 1 := by omega
      exact ⟨token .punctuation ";", rfl, by decide⟩
    · have hall := hpassed n (by omega) (by omega)
      rw [ht] at hall
      exact not_not.mpr (of_decide_eq_true hall)
  obtain rfl := hunique 1 hlast
  exact ⟨hin, hlast, hdoc.trans (by decide),
    hcut [token .docComment "/** a */"] (token .punctuation ";") (tokens.drop 2) rfl (by decide) (by decide)⟩

end Token
end Reflection
