import Mathlib.Data.List.Induction
import Reflection.Constant.Operator

/-!
# Chains of logical operators

Truth values that are joined by logical operators are told apart by how tightly the operators bind. The
language knows four ranks: `&&` binds most tightly, then `||`, then `and`, and `or` most loosely. The
evaluator knows two: `and` ranks with `&&` and `or` with `||`. The two readings of a chain agree,
whatever its truth values are, just where no `||` and `and` meet without an `or` between them.

## Main definitions

* `Connective`, `Chain`: truth values joined by logical operators.
* `Chain.inFourRanks`, `Chain.inTwoRanks`: the two readings of a chain.
* `Mixes`: a `||` and an `and` meet.

## Main statements

* `Chain.inTwoRanks_eq`: the readings agree unless a `||` and an `and` meet.
* `Chain.exists_inTwoRanks_ne`: where these meet, some truth values tell the readings apart.
-/
namespace Reflection

/-- Logical operators between two operands, spelled by signs or by words. -/
inductive Connective
  | or
  | orWord
  | and
  | andWord
  deriving DecidableEq, Repr

namespace Connective

/-- The operator. -/
def op : Connective → BinaryOp
  | or => .or
  | orWord => .orWord
  | and => .and
  | andWord => .andWord

/-- It is enough that one operand is true. -/
def isOr : Connective → Bool
  | or | orWord => true
  | and | andWord => false

/-- The operand that leaves the other one as it is. -/
def neutral (c : Connective) : Bool := !c.isOr

end Connective

/-- Truth values joined by connectives, as they are written one after the other. -/
inductive Chain
  | one (b : Bool)
  | join (rest : Chain) (c : Connective) (b : Bool)

namespace Chain

/-- Connectives of a chain in order. -/
def connectives : Chain → List Connective
  | one _ => []
  | join rest c _ => rest.connectives ++ [c]

/-- The part of a chain after its last connective that satisfies `p`. -/
def last (p : Connective → Bool) : Chain → Chain
  | one b => one b
  | join rest c b => if p c then one b else join (rest.last p) c b

/-- The parts of a chain before its last connective that satisfies `p`. -/
def earlier (p : Connective → Bool) : Chain → List Chain
  | one _ => []
  | join rest c _ => if p c then rest.earlier p ++ [rest.last p] else rest.earlier p

/-- The parts of a chain between the connectives that satisfy `p`. -/
def parts (p : Connective → Bool) (ch : Chain) : List Chain := ch.earlier p ++ [ch.last p]

/-- Every truth value of a chain is true. -/
def all : Chain → Bool
  | one b => b
  | join rest _ b => rest.all && b

/-- The truth of a chain whose operators bind by four ranks: the parts between one `or` and the next are
split at `and`, then at `||`, and last at `&&`. -/
def inFourRanks (ch : Chain) : Bool :=
  (ch.parts (· = .orWord)).any fun ch =>
    (ch.parts (· = .andWord)).all fun ch => (ch.parts (· = .or)).any all

/-- The truth of a chain whose operators bind by two ranks, whether they are signs or words. -/
def inTwoRanks (ch : Chain) : Bool := (ch.parts Connective.isOr).any all

@[simp] theorem inFourRanks_one (b : Bool) : (one b).inFourRanks = b := by
  simp [inFourRanks, parts, earlier, last, all]

@[simp] theorem inTwoRanks_one (b : Bool) : (one b).inTwoRanks = b := by
  simp [inTwoRanks, parts, earlier, last, all]

/-! ## Readings from left to right -/

/-- What is known of a chain once it is read up to some operand: whether a part before the last `or` is
true; whether all parts between that and the last `and` are; whether one between that and the last
`||` is; and whether the operands after that all are. -/
structure Standing where
  runs : Bool
  conjuncts : Bool
  disjuncts : Bool
  operands : Bool

/-- The truth of what was read. -/
def Standing.truth (s : Standing) : Bool := s.runs || (s.conjuncts && (s.disjuncts || s.operands))

/-- Reads one more connective with its operand. -/
def Standing.join (s : Standing) (c : Connective) (b : Bool) : Standing :=
  match c with
  | .and => { s with operands := s.operands && b }
  | .or => { s with disjuncts := s.disjuncts || s.operands, operands := b }
  | .andWord => ⟨s.runs, s.conjuncts && (s.disjuncts || s.operands), false, b⟩
  | .orWord => ⟨s.truth, true, false, b⟩

/-- What is known of a chain at its end. -/
def standing : Chain → Standing
  | one b => ⟨false, true, false, b⟩
  | join rest c b => rest.standing.join c b

theorem inFourRanks_eq_truth (ch : Chain) : ch.inFourRanks = ch.standing.truth := by
  have hstanding : ch.standing =
      ⟨(ch.earlier (· = .orWord)).any fun ch =>
          (ch.parts (· = .andWord)).all fun ch => (ch.parts (· = .or)).any all,
        ((ch.last (· = .orWord)).earlier (· = .andWord)).all fun ch => (ch.parts (· = .or)).any all,
        (((ch.last (· = .orWord)).last (· = .andWord)).earlier (· = .or)).any all,
        (((ch.last (· = .orWord)).last (· = .andWord)).last (· = .or)).all⟩ := by
    induction ch with
    | one b => rfl
    | join rest c b ih =>
      rw [standing, ih]
      cases c <;> simp [Standing.join, Standing.truth, earlier, last, parts, all]
  rw [hstanding]
  simp [inFourRanks, parts, Standing.truth]

/-- Whether a part before the last `||` or `or` is true, and whether the operands after that all are. -/
structure CoarseStanding where
  parts : Bool
  operands : Bool

/-- The truth of what was read. -/
def CoarseStanding.truth (s : CoarseStanding) : Bool := s.parts || s.operands

/-- Reads one more connective with its operand. -/
def CoarseStanding.join (s : CoarseStanding) (c : Connective) (b : Bool) : CoarseStanding :=
  if c.isOr then ⟨s.truth, b⟩ else { s with operands := s.operands && b }

/-- What is known of a chain at its end. -/
def coarseStanding : Chain → CoarseStanding
  | one b => ⟨false, b⟩
  | join rest c b => rest.coarseStanding.join c b

theorem inTwoRanks_eq_truth (ch : Chain) : ch.inTwoRanks = ch.coarseStanding.truth := by
  have hstanding : ch.coarseStanding =
      ⟨(ch.earlier Connective.isOr).any all, (ch.last Connective.isOr).all⟩ := by
    induction ch with
    | one b => rfl
    | join rest c b ih =>
      rw [coarseStanding, ih]
      cases c <;> simp [CoarseStanding.join, CoarseStanding.truth, Connective.isOr, earlier, last, all]
  rw [hstanding]
  simp [inTwoRanks, parts, CoarseStanding.truth]

end Chain

/-- A `||` and an `and` stand in a list of connectives without an `or` between them. -/
def Mixes (cs : List Connective) : Prop :=
  ∃ run, run <:+: cs ∧ .orWord ∉ run ∧ .or ∈ run ∧ .andWord ∈ run

/-- A connective stands in a list without an `or` after it. -/
def Trails (c : Connective) (cs : List Connective) : Prop :=
  ∃ run, run <:+ cs ∧ .orWord ∉ run ∧ c ∈ run

theorem not_trails_nil (c : Connective) : ¬ Trails c [] := by
  rintro ⟨run, hrun, -, hc⟩
  rw [List.suffix_nil.mp hrun] at hc
  cases hc

theorem trails_concat_iff (c d : Connective) (cs : List Connective) :
    Trails c (cs ++ [d]) ↔ d ≠ .orWord ∧ (c = d ∨ Trails c cs) := by
  constructor
  · rintro ⟨run, hrun, hword, hc⟩
    rcases List.suffix_concat_iff.mp hrun with rfl | ⟨front, rfl, hfront⟩
    · cases hc
    · simp only [List.mem_append, List.mem_singleton, not_or] at hword hc
      exact ⟨Ne.symm hword.2, hc.symm.imp id fun h => ⟨front, hfront, hword.1, h⟩⟩
  · rintro ⟨hd, rfl | ⟨run, hrun, hword, hc⟩⟩
    · exact ⟨[c], List.suffix_append .., by simpa using Ne.symm hd, List.mem_singleton_self c⟩
    · exact ⟨run ++ [d], List.suffix_concat_iff.mpr (.inr ⟨run, rfl, hrun⟩),
        by simp [hword, Ne.symm hd], List.mem_append_left _ hc⟩

theorem not_mixes_nil : ¬ Mixes [] := by
  rintro ⟨run, hrun, -, hor, -⟩
  rw [List.infix_nil.mp hrun] at hor
  cases hor

/-- A connective mixes with those before it that no `or` follows. -/
theorem mixes_concat_iff (d : Connective) (cs : List Connective) :
    Mixes (cs ++ [d]) ↔ Mixes cs ∨ d = .or ∧ Trails .andWord cs ∨ d = .andWord ∧ Trails .or cs := by
  constructor
  · rintro ⟨run, hrun, hword, hor, hand⟩
    rcases List.infix_concat_iff.mp hrun with hsuffix | hinfix
    · rcases List.suffix_concat_iff.mp hsuffix with rfl | ⟨front, rfl, hfront⟩
      · cases hor
      · simp only [List.mem_append, List.mem_singleton, not_or] at hword hor hand
        rcases hor with hor | rfl
        · rcases hand with hand | rfl
          · exact .inl ⟨front, hfront.isInfix, hword.1, hor, hand⟩
          · exact .inr (.inr ⟨rfl, front, hfront, hword.1, hor⟩)
        · refine .inr (.inl ⟨rfl, front, hfront, hword.1, hand.resolve_right (by simp)⟩)
    · exact .inl ⟨run, hinfix, hword, hor, hand⟩
  · rintro (⟨run, hrun, hword, hor, hand⟩ | ⟨rfl, run, hrun, hword, hand⟩ |
      ⟨rfl, run, hrun, hword, hor⟩)
    · exact ⟨run, hrun.trans (List.prefix_append ..).isInfix, hword, hor, hand⟩
    · exact ⟨run ++ [.or], (List.suffix_concat_iff.mpr (.inr ⟨run, rfl, hrun⟩)).isInfix,
        by simp [hword], by simp, List.mem_append_left _ hand⟩
    · exact ⟨run ++ [.andWord], (List.suffix_concat_iff.mpr (.inr ⟨run, rfl, hrun⟩)).isInfix,
        by simp [hword], List.mem_append_left _ hor, by simp⟩

/-- Two connectives of which no `or` follows either mix. -/
theorem not_trails_of_not_mixes {cs : List Connective} (h : ¬ Mixes cs) :
    ¬ Trails .or cs ∨ ¬ Trails .andWord cs := by
  by_contra hboth
  simp only [not_or, not_not] at hboth
  obtain ⟨⟨run, hrun, hword, hor⟩, run', hrun', hword', hand⟩ := hboth
  rcases List.suffix_or_suffix_of_suffix hrun hrun' with hle | hle
  · exact h ⟨run', hrun'.isInfix, hword', hle.subset hor, hand⟩
  · exact h ⟨run, hrun.isInfix, hword, hor, hle.subset hand⟩

namespace Chain

/-! ## Agreement of the readings -/

/-- The readings have the same standing at the end of a chain: as long as no `and` trails, the parts
between `||` are all disjuncts; as long as no `||` trails, the operands are all conjuncts. -/
structure SameStanding (ch : Chain) : Prop where
  disjuncts : ¬ Trails .andWord ch.connectives → ch.standing.conjuncts = true ∧
    ch.coarseStanding = ⟨ch.standing.runs || ch.standing.disjuncts, ch.standing.operands⟩
  conjuncts : ¬ Trails .or ch.connectives → ch.standing.disjuncts = false ∧
    ch.coarseStanding = ⟨ch.standing.runs, ch.standing.conjuncts && ch.standing.operands⟩

theorem SameStanding.truth_eq {ch : Chain} (h : SameStanding ch) (hmix : ¬ Mixes ch.connectives) :
    ch.coarseStanding.truth = ch.standing.truth := by
  rcases not_trails_of_not_mixes hmix with hnot | hnot
  · obtain ⟨hdisj, heq⟩ := h.conjuncts hnot
    simp [heq, Standing.truth, CoarseStanding.truth, hdisj]
  · obtain ⟨hconj, heq⟩ := h.disjuncts hnot
    simp [heq, Standing.truth, CoarseStanding.truth, hconj, Bool.or_assoc]

theorem sameStanding_of_not_mixes {ch : Chain} (h : ¬ Mixes ch.connectives) : SameStanding ch := by
  induction ch with
  | one b => exact ⟨fun _ => ⟨rfl, rfl⟩, fun _ => ⟨rfl, rfl⟩⟩
  | join rest c b ih =>
    simp only [connectives, mixes_concat_iff, not_or] at h
    obtain ⟨hrest, hor, hand⟩ := h
    have ih := ih hrest
    constructor <;> intro hnot <;>
      simp only [connectives, trails_concat_iff, standing, coarseStanding] at hnot ⊢
    case disjuncts =>
      cases c with
      | and =>
        obtain ⟨hconj, heq⟩ := ih.disjuncts (by simpa using hnot)
        simp [Standing.join, CoarseStanding.join, Connective.isOr, heq, hconj]
      | or =>
        obtain ⟨hconj, heq⟩ := ih.disjuncts fun htrails => hor ⟨rfl, htrails⟩
        simp [Standing.join, CoarseStanding.join, Connective.isOr, CoarseStanding.truth, heq, hconj,
          Bool.or_assoc]
      | andWord => exact absurd ⟨by simp, .inl rfl⟩ hnot
      | orWord => simp [Standing.join, CoarseStanding.join, Connective.isOr, ih.truth_eq hrest]
    case conjuncts =>
      cases c with
      | and =>
        obtain ⟨hdisj, heq⟩ := ih.conjuncts (by simpa using hnot)
        simp [Standing.join, CoarseStanding.join, Connective.isOr, heq, hdisj, Bool.and_assoc]
      | or => exact absurd ⟨by simp, .inl rfl⟩ hnot
      | andWord =>
        obtain ⟨hdisj, heq⟩ := ih.conjuncts fun htrails => hand ⟨rfl, htrails⟩
        simp [Standing.join, CoarseStanding.join, Connective.isOr, heq, hdisj]
      | orWord => simp [Standing.join, CoarseStanding.join, Connective.isOr, ih.truth_eq hrest]

/-- The readings of a chain that does not mix agree. -/
theorem inTwoRanks_eq {ch : Chain} (h : ¬ Mixes ch.connectives) : ch.inTwoRanks = ch.inFourRanks := by
  rw [inTwoRanks_eq_truth, inFourRanks_eq_truth]
  exact (sameStanding_of_not_mixes h).truth_eq h

/-! ## Truth values for given connectives -/

/-- The neutral operand of a connective changes no reading. -/
theorem inFourRanks_join_neutral (ch : Chain) (c : Connective) :
    (ch.join c c.neutral).inFourRanks = ch.inFourRanks := by
  rw [inFourRanks_eq_truth, inFourRanks_eq_truth, standing]
  cases c <;> simp [Standing.join, Standing.truth, Connective.neutral, Connective.isOr,
    Bool.and_or_distrib_left]

theorem inTwoRanks_join_neutral (ch : Chain) (c : Connective) :
    (ch.join c c.neutral).inTwoRanks = ch.inTwoRanks := by
  rw [inTwoRanks_eq_truth, inTwoRanks_eq_truth, coarseStanding]
  cases c <;> simp [CoarseStanding.join, CoarseStanding.truth, Connective.neutral, Connective.isOr]

/-- Operands before a connective that are neutral to what follows them stand like a single one. -/
theorem exists_standing_eq (cs : List Connective) (b : Bool) :
    ∃ ch : Chain, ch.connectives = cs ∧ ch.standing = ⟨false, true, false, b⟩ ∧
      ch.coarseStanding = ⟨false, b⟩ := by
  induction cs using List.reverseRecOn generalizing b with
  | nil => exact ⟨one b, rfl, rfl, rfl⟩
  | append_singleton cs c ih =>
    obtain ⟨ch, hconnectives, hstanding, hcoarse⟩ := ih c.neutral
    refine ⟨ch.join c b, by rw [connectives, hconnectives], ?_, ?_⟩
    · rw [standing, hstanding]
      cases c <;> rfl
    · rw [coarseStanding, hcoarse]
      cases c <;> rfl

/-- There are operands for which both readings give the last one. -/
theorem exists_join_eq (cs : List Connective) (c : Connective) :
    ∃ ch : Chain, ch.connectives = cs ∧
      ∀ b, (ch.join c b).inTwoRanks = b ∧ (ch.join c b).inFourRanks = b := by
  obtain ⟨ch, hconnectives, hstanding, hcoarse⟩ := exists_standing_eq cs c.neutral
  refine ⟨ch, hconnectives, fun b => ?_⟩
  rw [inTwoRanks_eq_truth, inFourRanks_eq_truth, standing, coarseStanding, hstanding, hcoarse]
  cases c <;> simp [Standing.join, CoarseStanding.join, Standing.truth, CoarseStanding.truth,
    Connective.neutral, Connective.isOr]

/-- There are operands of which both readings give a truth value. -/
theorem exists_chain_eq (cs : List Connective) (b : Bool) :
    ∃ ch : Chain, ch.connectives = cs ∧ ch.inTwoRanks = b ∧ ch.inFourRanks = b := by
  obtain ⟨ch, hconnectives, hstanding, hcoarse⟩ := exists_standing_eq cs b
  refine ⟨ch, hconnectives, ?_, ?_⟩
  · simp [inTwoRanks_eq_truth, hcoarse, CoarseStanding.truth]
  · simp [inFourRanks_eq_truth, hstanding, Standing.truth]

/-! ## Disagreement of the readings -/

theorem exists_conjuncts_eq_false {cs : List Connective} (h : Trails .andWord cs) :
    ∃ ch : Chain, ch.connectives = cs ∧ ch.standing.runs = false ∧ ch.standing.conjuncts = false := by
  induction cs using List.reverseRecOn with
  | nil => exact absurd h (not_trails_nil _)
  | append_singleton cs c ih =>
    obtain ⟨hword, htrails⟩ := (trails_concat_iff _ _ _).mp h
    rcases htrails with rfl | htrails
    · obtain ⟨ch, hconnectives, hstanding, -⟩ := exists_standing_eq cs false
      refine ⟨ch.join .andWord false, by rw [connectives, hconnectives], ?_, ?_⟩ <;>
        rw [standing, hstanding] <;> rfl
    · obtain ⟨ch, hconnectives, hruns, hconj⟩ := ih htrails
      refine ⟨ch.join c false, by rw [connectives, hconnectives], ?_, ?_⟩ <;>
        cases c <;> simp_all [standing, Standing.join]

theorem exists_parts_eq_true {cs : List Connective} (h : Trails .or cs) :
    ∃ ch : Chain, ch.connectives = cs ∧ ch.standing.runs = false ∧ ch.coarseStanding.parts = true := by
  induction cs using List.reverseRecOn with
  | nil => exact absurd h (not_trails_nil _)
  | append_singleton cs c ih =>
    obtain ⟨hword, htrails⟩ := (trails_concat_iff _ _ _).mp h
    rcases htrails with rfl | htrails
    · obtain ⟨ch, hconnectives, hstanding, hcoarse⟩ := exists_standing_eq cs true
      refine ⟨ch.join .or false, by rw [connectives, hconnectives], ?_, ?_⟩
      · rw [standing, hstanding]
        rfl
      · rw [coarseStanding, hcoarse]
        rfl
    · obtain ⟨ch, hconnectives, hruns, hparts⟩ := ih htrails
      refine ⟨ch.join c false, by rw [connectives, hconnectives], ?_, ?_⟩ <;>
        cases c <;> simp_all [standing, coarseStanding, Standing.join, CoarseStanding.join,
          CoarseStanding.truth, Connective.isOr]

/-- Connectives that mix have operands on which the readings differ. -/
theorem exists_inTwoRanks_ne {cs : List Connective} (h : Mixes cs) :
    ∃ ch : Chain, ch.connectives = cs ∧ ch.inTwoRanks ≠ ch.inFourRanks := by
  induction cs using List.reverseRecOn with
  | nil => exact absurd h not_mixes_nil
  | append_singleton cs c ih =>
    rcases (mixes_concat_iff c cs).mp h with hmix | ⟨rfl, htrails⟩ | ⟨rfl, htrails⟩
    · obtain ⟨ch, hconnectives, hne⟩ := ih hmix
      refine ⟨ch.join c c.neutral, by rw [connectives, hconnectives], ?_⟩
      rwa [inTwoRanks_join_neutral, inFourRanks_join_neutral]
    -- The last operand is true, and what stands before the `and` is false.
    · obtain ⟨ch, hconnectives, hruns, hconj⟩ := exists_conjuncts_eq_false htrails
      refine ⟨ch.join .or true, by rw [connectives, hconnectives], ?_⟩
      rw [inTwoRanks_eq_truth, inFourRanks_eq_truth, standing, coarseStanding]
      simp [Standing.join, CoarseStanding.join, Standing.truth, CoarseStanding.truth, Connective.isOr,
        hruns, hconj]
    -- The last operand is false, and something before the `||` is true.
    · obtain ⟨ch, hconnectives, hruns, hparts⟩ := exists_parts_eq_true htrails
      refine ⟨ch.join .andWord false, by rw [connectives, hconnectives], ?_⟩
      rw [inTwoRanks_eq_truth, inFourRanks_eq_truth, standing, coarseStanding]
      simp [Standing.join, CoarseStanding.join, Standing.truth, CoarseStanding.truth, Connective.isOr,
        hruns, hparts]

end Chain

end Reflection
