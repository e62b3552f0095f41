import Reflection.Proofs.Constant.References

/-!
# The ledger of a scan

Constants are evaluated in the order in which they are declared, each with the constants before it. A
constant whose expression is not supported has no value: it is kept as text. Where a later expression
refers to it, it is shown as that text all the same.

The ledger lists the constants with their values and tells kept ones from others. What it should be is
stated without the texts; when it is so is a matter of the expressions that refer to a kept constant.

## Main definitions

* `ConstantSite`, `LedgerEntry`, `Ledger`.
* `Ledger.shownTo`, `Ledger.valuesFor`: the constants as evaluation sees them, and as they are.
* `Ledger.declare`: the ledger after one more constant.
* `Ledger.KeptSpreads`, `Ledger.Honest`: no constant gets its value from the text of another one.

## Main statements

* `Ledger.followsShown_foldlM`: a ledger that is written constant by constant follows what is shown.
* `Ledger.honest_and_keptSpreads_iff`: when a ledger is as it should be.
-/
namespace Reflection

/-- A constant as it is declared: the key under which it is found, the keys that a name in its
expression may stand for, the first one that is declared being meant, and the expression. -/
structure ConstantSite where
  key : String
  meanings : String → List String
  expression : List Token

/-- A declared constant and its value. A constant that is kept as text has none. -/
structure LedgerEntry where
  site : ConstantSite
  value? : Option Value

/-- What is shown in the place of a constant: its value, and without one the text of its
expression. -/
def LedgerEntry.shown (entry : LedgerEntry) : Value :=
  entry.value?.getD (.text (Token.spelling entry.site.expression))

/-- The constants that have been declared, the latest one first. -/
abbrev Ledger := List LedgerEntry

/-- The value of a constant, none where its expression is not supported. Other faults remain. -/
def valueOrKept : Except EvaluationFault Value → Except EvaluationFault (Option Value)
  | .ok v => .ok (some v)
  | .error (.unsupported _ _) => .ok none
  | .error fault => .error fault

namespace Ledger

/-- The latest constant under a key. -/
def find? (ledger : Ledger) (key : String) : Option LedgerEntry :=
  List.find? (·.site.key == key) ledger

/-- The constant that a name in the expression of a site means. -/
def meant? (ledger : Ledger) (site : ConstantSite) (name : String) : Option LedgerEntry :=
  (site.meanings name).findSome? ledger.find?

/-- The constants as the evaluation of a site sees them. -/
def shownTo (ledger : Ledger) (site : ConstantSite) : ConstantLookup := fun name =>
  (ledger.meant? site name).map LedgerEntry.shown

/-- The constants that have values. -/
def valuesFor (ledger : Ledger) (site : ConstantSite) : ConstantLookup := fun name =>
  (ledger.meant? site name).bind LedgerEntry.value?

/-- The ledger with one more constant. -/
def declare (room : Nat) (ledger : Ledger) (site : ConstantSite) :
    Except EvaluationFault Ledger := do
  let value? ← valueOrKept (evaluate (ledger.shownTo site) room site.expression)
  return ⟨site, value?⟩ :: ledger

/-- The expression of a site refers to a constant that is kept as text. -/
def RefersToKept (room : Nat) (ledger : Ledger) (site : ConstantSite) : Prop :=
  ∃ name entry, RefersTo room site.expression name ∧ ledger.meant? site name = some entry ∧
    entry.value? = none

/-- Something holds of every constant and the constants that were declared before it. -/
def Each (P : LedgerEntry → Ledger → Prop) (ledger : Ledger) : Prop :=
  ∀ entry earlier, entry :: earlier <:+ ledger → P entry earlier

/-- Each constant has the value that its expression has where the others are shown. -/
def FollowsShown (room : Nat) : Ledger → Prop :=
  Each fun entry earlier =>
    valueOrKept (evaluate (earlier.shownTo entry.site) room entry.site.expression) =
      .ok entry.value?

/-- A constant that refers to a kept one is itself kept. -/
def KeptSpreads (room : Nat) : Ledger → Prop :=
  Each fun entry earlier => earlier.RefersToKept room entry.site → entry.value? = none

/-- A constant that has a value has the one that its expression has by the values of others. -/
def Honest (room : Nat) : Ledger → Prop :=
  Each fun entry earlier => ∀ v, entry.value? = some v →
    evaluate (earlier.valuesFor entry.site) room entry.site.expression = .ok v

/-- An expression that refers to a kept constant has no value where the text is shown. -/
def TextsFail (room : Nat) : Ledger → Prop :=
  Each fun entry earlier => earlier.RefersToKept room entry.site → ∀ v,
    evaluate (earlier.shownTo entry.site) room entry.site.expression ≠ .ok v

variable {room : Nat}

theorem each_nil (P : LedgerEntry → Ledger → Prop) : Each P [] := by
  intro entry earlier h
  cases List.suffix_nil.mp h

theorem each_cons {P : LedgerEntry → Ledger → Prop} {entry : LedgerEntry} {ledger : Ledger} :
    Each P (entry :: ledger) ↔ P entry ledger ∧ Each P ledger := by
  constructor
  · intro h
    exact ⟨h entry ledger (List.suffix_refl _), fun other earlier hsuffix =>
      h other earlier (hsuffix.trans (List.suffix_cons entry ledger))⟩
  · intro h other earlier hsuffix
    rcases List.suffix_cons_iff.mp hsuffix with heq | hsuffix
    · cases heq
      exact h.1
    · exact h.2 other earlier hsuffix

theorem find?_cons (entry : LedgerEntry) (ledger : Ledger) (key : String) :
    find? (entry :: ledger) key = if entry.site.key = key then some entry else ledger.find? key := by
  by_cases h : entry.site.key = key
  · simp [find?, h]
  · simp [find?, h]

/-! ## What a run of declarations writes -/

theorem declare_eq_ok_iff {ledger ledger' : Ledger} {site : ConstantSite} :
    ledger.declare room site = .ok ledger' ↔
      ∃ value?, valueOrKept (evaluate (ledger.shownTo site) room site.expression) = .ok value? ∧
        ledger' = ⟨site, value?⟩ :: ledger := by
  constructor
  · intro h
    obtain ⟨value?, hvalue, heq⟩ := exists_ok_of_bind h
    cases heq
    exact ⟨value?, hvalue, rfl⟩
  · intro h
    obtain ⟨value?, hvalue, rfl⟩ := h
    simp only [declare, hvalue]
    rfl

/-- One more declaration keeps to what is shown. -/
theorem followsShown_declare {ledger ledger' : Ledger} {site : ConstantSite}
    (h : ledger.FollowsShown room) (hdeclare : ledger.declare room site = .ok ledger') :
    ledger'.FollowsShown room := by
  obtain ⟨value?, hvalue, rfl⟩ := declare_eq_ok_iff.mp hdeclare
  exact each_cons.mpr ⟨hvalue, h⟩

/-- A run of declarations keeps to what is shown. -/
theorem followsShown_foldlM {sites : List ConstantSite} {ledger ledger' : Ledger}
    (h : ledger.FollowsShown room) (hrun : sites.foldlM (declare room) ledger = .ok ledger') :
    ledger'.FollowsShown room := by
  induction sites generalizing ledger with
  | nil =>
    cases hrun
    exact h
  | cons site rest ih =>
    obtain ⟨middle, hdeclare, hrest⟩ := exists_ok_of_bind hrun
    exact ih (followsShown_declare h hdeclare) hrest

/-! ## When the texts do no harm -/

theorem valueOrKept_eq_some_iff {outcome : Except EvaluationFault Value} {v : Value} :
    valueOrKept outcome = .ok (some v) ↔ outcome = .ok v := by
  constructor
  · intro h
    unfold valueOrKept at h
    split at h
    · cases h
      rfl
    · cases h
    · cases h
  · intro h
    rw [h]
    rfl

/-- What is shown of a constant that is not kept is its value. -/
theorem shownTo_eq_valuesFor {ledger : Ledger} {site : ConstantSite} {name : String}
    (h : ∀ entry, ledger.meant? site name = some entry → entry.value? ≠ none) :
    ledger.shownTo site name = ledger.valuesFor site name := by
  cases hmeant : ledger.meant? site name with
  | none => simp only [shownTo, valuesFor, hmeant, Option.map_none, Option.bind_none]
  | some entry =>
    obtain ⟨v, hv⟩ := Option.ne_none_iff_exists'.mp (h entry hmeant)
    simp only [shownTo, valuesFor, hmeant, Option.map_some, Option.bind_some, LedgerEntry.shown, hv,
      Option.getD_some]

/-- An expression that refers to no kept constant has the value that it should have. -/
theorem evaluate_valuesFor {ledger : Ledger} {site : ConstantSite} {v : Value}
    (hrefers : ¬ ledger.RefersToKept room site)
    (h : evaluate (ledger.shownTo site) room site.expression = .ok v) :
    evaluate (ledger.valuesFor site) room site.expression = .ok v := by
  refine evaluate_congr_of_eq_ok (fun name hname => shownTo_eq_valuesFor ?_) h
  intro entry hmeant hkept
  exact hrefers ⟨name, entry, hname, hmeant, hkept⟩

/-- An expression that refers to a kept constant has no value of its own. -/
theorem not_refersToKept {ledger : Ledger} {site : ConstantSite} {v : Value}
    (h : evaluate (ledger.valuesFor site) room site.expression = .ok v) :
    ¬ ledger.RefersToKept room site := by
  intro hrefers
  obtain ⟨name, entry, hname, hmeant, hkept⟩ := hrefers
  have hsome := isSome_of_refersTo h hname
  simp only [valuesFor, hmeant, Option.bind_some, hkept] at hsome
  cases hsome

/-- Where all values are as they should be, a constant that refers to a kept one is kept. -/
theorem Honest.keptSpreads {ledger : Ledger} (h : ledger.Honest room) : ledger.KeptSpreads room := by
  intro entry earlier hsuffix hkept
  cases hvalue : entry.value? with
  | none => rfl
  | some v => exact absurd hkept (not_refersToKept (h entry earlier hsuffix v hvalue))

/-- In a ledger that follows what is shown, a constant has the value that evaluation gives. -/
theorem FollowsShown.value?_eq_some_iff {ledger earlier : Ledger} {entry : LedgerEntry} {v : Value}
    (h : ledger.FollowsShown room) (hsuffix : entry :: earlier <:+ ledger) :
    entry.value? = some v ↔
      evaluate (earlier.shownTo entry.site) room entry.site.expression = .ok v := by
  have hvalue : valueOrKept (evaluate (earlier.shownTo entry.site) room entry.site.expression) =
      .ok entry.value? := h entry earlier hsuffix
  rw [← valueOrKept_eq_some_iff, hvalue, Except.ok.injEq]

/-- A ledger that follows what is shown is as it should be just where no expression that refers to a
kept constant gets a value from the text. -/
theorem honest_and_keptSpreads_iff {ledger : Ledger} (h : ledger.FollowsShown room) :
    (ledger.Honest room ∧ ledger.KeptSpreads room) ↔ ledger.TextsFail room := by
  constructor
  · intro hgood entry earlier hsuffix hrefers v hv
    have hkept := hgood.2 entry earlier hsuffix hrefers
    rw [(h.value?_eq_some_iff hsuffix).mpr hv] at hkept
    cases hkept
  · intro htexts
    have hrefers {entry : LedgerEntry} {earlier : Ledger} {v : Value}
        (hsuffix : entry :: earlier <:+ ledger) (hvalue : entry.value? = some v) :
        ¬ earlier.RefersToKept room entry.site := fun hrefers =>
      htexts entry earlier hsuffix hrefers v ((h.value?_eq_some_iff hsuffix).mp hvalue)
    have hhonest : ledger.Honest room := by
      intro entry earlier hsuffix v hvalue
      exact evaluate_valuesFor (hrefers hsuffix hvalue) ((h.value?_eq_some_iff hsuffix).mp hvalue)
    exact ⟨hhonest, hhonest.keptSpreads⟩

end Ledger
end Reflection
