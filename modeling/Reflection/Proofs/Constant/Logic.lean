import Reflection.Proofs.Constant.Chain
import Reflection.Proofs.Constant.Union

/-!
# Logical expressions

Expressions of literals with `!`, `||`, `&&`, `or`, `and` and parentheses. The evaluator gives a boolean
for each of them. It differs from what the language gives in two ways: it ranks words with signs, and the
text `0` is true. So the two agree on every expression of a shape just where no `||` and `and` meet in it
without an `or` between them and no literal is the text `0`.

## Main definitions

* `Value.isFalsy`: what counts as false in the language.
* `Logic`, `Logic.Spelled`: logical expressions and the tokens that spell them.
* `Interpretation`, `Logic.truth`: the boolean of an expression as the evaluator and as the language
  read it.
* `Logic.Unmixed`: no `||` and `and` meet in an expression.

## Main statements

* `Logic.truth_eq`, `Logic.exists_truth_ne`: where the readings agree and where they do not.
* `evaluate_logical`: what the evaluator gives.
-/
namespace Reflection

open Text

/-! ## Truth -/

/-- What counts as false in the language: null, false, zero, the empty text, the text `0` and empty
arrays. -/
def Value.isFalsy : Value → Bool
  | null => true
  | bool b => !b
  | int n => n == 0
  | float x => x == 0
  | text s => s = "" ∨ s = "0"
  | list items => items.isEmpty
  | map entries => entries.isEmpty

/-- The evaluator takes only the text `0` for something else. -/
theorem Value.isTrue_eq_not_isFalsy_iff (v : Value) : v.isTrue = !v.isFalsy ↔ v ≠ .text "0" := by
  cases v with
  | text s =>
    have hempty : s.isEmpty = decide (s = "") := by
      obtain ⟨points⟩ := s
      cases points <;> rfl
    by_cases hzero : s = "0"
    · simp [isTrue, isFalsy, hzero]
      decide
    · simp [isTrue, isFalsy, hempty, hzero]
  | null => simp [isTrue, isFalsy]
  | bool b => simp [isTrue, isFalsy]
  | int n => simp [isTrue, isFalsy, bne]
  | float x => simp [isTrue, isFalsy, bne]
  | list items => simp [isTrue, isFalsy]
  | map entries => simp [isTrue, isFalsy]

/-- How truth is read off values and off chains. -/
structure Interpretation where
  truth : Value → Bool
  chain : Chain → Bool

/-- The reading of the evaluator. -/
def Interpretation.evaluator : Interpretation := ⟨Value.isTrue, Chain.inTwoRanks⟩

/-- The reading of the language. -/
def Interpretation.language : Interpretation := ⟨fun v => !v.isFalsy, Chain.inFourRanks⟩

/-! ## Expressions -/

/-- Logical expressions as they are written. A connective stands between what is before it and the
operand after it, whatever their ranks are; only parentheses make groups. -/
inductive Logic (α : Type)
  | literal (a : α)
  | not (operand : Logic α)
  | group (inner : Logic α)
  | join (left : Logic α) (c : Connective) (right : Logic α)

namespace Logic

/-- The expression with other literals. -/
def map {α β : Type} (f : α → β) : Logic α → Logic β
  | literal a => literal (f a)
  | not e => not (e.map f)
  | group e => group (e.map f)
  | join l c r => join (l.map f) c (r.map f)

/-- The expression without its literals. -/
def shape {α : Type} (e : Logic α) : Logic Unit := e.map fun _ => ()

/-- The literals of an expression in order. -/
def literals {α : Type} : Logic α → List α
  | literal a => [a]
  | not e => e.literals
  | group e => e.literals
  | join l _ r => l.literals ++ r.literals

/-- The connectives outside parentheses. -/
def connectives {α : Type} : Logic α → List Connective
  | join l c _ => l.connectives ++ [c]
  | _ => []

/-- What `!` and a connective may have for their operands. -/
def isOperand {α : Type} : Logic α → Bool
  | join .. => false
  | _ => true

/-- There is an operator outside all parentheses or within them all. -/
def hasOperator {α : Type} : Logic α → Bool
  | literal _ => false
  | group e => e.hasOperator
  | _ => true

/-- Truth values of the operands outside parentheses. -/
def chain (reading : Interpretation) : Logic Value → Chain
  | literal v => .one (reading.truth v)
  | not e => .one (!reading.chain (e.chain reading))
  | group e => .one (reading.chain (e.chain reading))
  | join l c r => (l.chain reading).join c (reading.chain (r.chain reading))

/-- The boolean of an expression. -/
def truth (reading : Interpretation) (e : Logic Value) : Bool := reading.chain (e.chain reading)

@[simp] theorem truth_not_evaluator (e : Logic Value) :
    (not e).truth .evaluator = !e.truth .evaluator := Chain.inTwoRanks_one _

@[simp] theorem truth_not_language (e : Logic Value) :
    (not e).truth .language = !e.truth .language := Chain.inFourRanks_one _

@[simp] theorem truth_group_evaluator (e : Logic Value) :
    (group e).truth .evaluator = e.truth .evaluator := Chain.inTwoRanks_one _

@[simp] theorem truth_group_language (e : Logic Value) :
    (group e).truth .language = e.truth .language := Chain.inFourRanks_one _

/-- No `||` and `and` meet within the operands of an expression. -/
def OperandsUnmixed {α : Type} : Logic α → Prop
  | literal _ => True
  | not e => ¬ Mixes e.connectives ∧ e.OperandsUnmixed
  | group e => ¬ Mixes e.connectives ∧ e.OperandsUnmixed
  | join l _ r => l.OperandsUnmixed ∧ ¬ Mixes r.connectives ∧ r.OperandsUnmixed

/-- No `||` and `and` meet in an expression without an `or` between them or parentheses around one of
them. -/
def Unmixed {α : Type} (e : Logic α) : Prop := ¬ Mixes e.connectives ∧ e.OperandsUnmixed

/-! ## Shapes -/

section

variable {α β : Type} {e : Logic α} {e' : Logic β}

@[simp] theorem connectives_map (f : α → β) (e : Logic α) : (e.map f).connectives = e.connectives := by
  induction e with
  | join l c r ihl ihr => simp [map, connectives, ihl]
  | _ => rfl

theorem isOperand_map (f : α → β) (e : Logic α) : (e.map f).isOperand = e.isOperand := by
  cases e <;> rfl

theorem hasOperator_map (f : α → β) (e : Logic α) : (e.map f).hasOperator = e.hasOperator := by
  induction e with
  | group e ih => exact ih
  | _ => rfl

theorem operandsUnmixed_map (f : α → β) (e : Logic α) :
    (e.map f).OperandsUnmixed ↔ e.OperandsUnmixed := by
  induction e with
  | literal a => rfl
  | not e ih => simp [map, OperandsUnmixed, ih]
  | group e ih => simp [map, OperandsUnmixed, ih]
  | join l c r ihl ihr => simp [map, OperandsUnmixed, ihl, ihr]

/-- Expressions of one shape differ in their literals only. -/
theorem isOperand_eq_of_shape_eq (h : e.shape = e'.shape) : e.isOperand = e'.isOperand := by
  rw [← isOperand_map (fun _ => ()) e, ← isOperand_map (fun _ => ()) e']
  exact congrArg isOperand h

theorem hasOperator_eq_of_shape_eq (h : e.shape = e'.shape) : e.hasOperator = e'.hasOperator := by
  rw [← hasOperator_map (fun _ => ()) e, ← hasOperator_map (fun _ => ()) e']
  exact congrArg hasOperator h

theorem unmixed_iff_of_shape_eq (h : e.shape = e'.shape) : e.Unmixed ↔ e'.Unmixed := by
  rw [Unmixed, Unmixed, ← operandsUnmixed_map (fun _ => ()) e, ← operandsUnmixed_map (fun _ => ()) e',
    ← connectives_map (fun _ => ()) e, ← connectives_map (fun _ => ()) e']
  exact iff_of_eq (congrArg Unmixed h)

end

/-! ## Agreement -/

@[simp] theorem connectives_chain (reading : Interpretation) (e : Logic Value) :
    (e.chain reading).connectives = e.connectives := by
  induction e with
  | literal v => rfl
  | not e ih => rfl
  | group e ih => rfl
  | join l c r ihl ihr => simp [chain, Chain.connectives, connectives, ihl]

/-- Operands in which nothing mixes are read alike. -/
theorem chain_eq {e : Logic Value} (hunmixed : e.OperandsUnmixed)
    (hliterals : ∀ v ∈ e.literals, v ≠ .text "0") : e.chain .evaluator = e.chain .language := by
  have hread {e : Logic Value} (h : ¬ Mixes e.connectives)
      (heq : e.chain .evaluator = e.chain .language) : e.truth .evaluator = e.truth .language := by
    rw [truth, heq]
    exact Chain.inTwoRanks_eq (by rwa [connectives_chain])
  induction e with
  | literal v =>
    exact congrArg Chain.one ((Value.isTrue_eq_not_isFalsy_iff v).mpr (hliterals v (by simp [literals])))
  | not e ih => exact congrArg (Chain.one !·) (hread hunmixed.1 (ih hunmixed.2 hliterals))
  | group e ih => exact congrArg Chain.one (hread hunmixed.1 (ih hunmixed.2 hliterals))
  | join l c r ihl ihr =>
    obtain ⟨hl, hr⟩ := List.forall_mem_append.mp hliterals
    rw [chain, chain, ihl hunmixed.1 hl]
    exact congrArg _ (hread hunmixed.2.1 (ihr hunmixed.2.2 hr))

/-- An expression in which nothing mixes and in which no literal is the text `0` has one boolean. -/
theorem truth_eq {e : Logic Value} (hunmixed : e.Unmixed)
    (hliterals : ∀ v ∈ e.literals, v ≠ .text "0") : e.truth .evaluator = e.truth .language := by
  rw [truth, chain_eq hunmixed.2 hliterals]
  exact Chain.inTwoRanks_eq (by rw [connectives_chain]; exact hunmixed.1)

/-! ## Operands of given truth values -/

/-- Words can stand for the literals of a shape so that the operands outside parentheses have given
truth values, however these are read. -/
def Settable {α : Type} (e : Logic α) : Prop :=
  ∀ ch : Chain, ch.connectives = e.connectives → ∃ e' : Logic Value, e'.shape = e.shape ∧
    (∀ v ∈ e'.literals, ∃ b, v = .bool b) ∧ e'.chain .evaluator = ch ∧ e'.chain .language = ch

/-- So can they that the whole has a given truth value. -/
theorem Settable.exists_truth_eq {α : Type} {e : Logic α} (h : e.Settable) (b : Bool) :
    ∃ e' : Logic Value, e'.shape = e.shape ∧ (∀ v ∈ e'.literals, ∃ b, v = .bool b) ∧
      e'.truth .evaluator = b ∧ e'.truth .language = b := by
  obtain ⟨ch, hch, htwo, hfour⟩ := Chain.exists_chain_eq e.connectives b
  obtain ⟨e', hshape, hwords, hevaluator, hlanguage⟩ := h ch hch
  refine ⟨e', hshape, hwords, ?_, ?_⟩
  · rw [truth, hevaluator]
    exact htwo
  · rw [truth, hlanguage]
    exact hfour

theorem settable {α : Type} (e : Logic α) : e.Settable := by
  induction e with
  | literal a =>
    intro ch hch
    cases ch with
    | join rest c b => simp [Chain.connectives, connectives] at hch
    | one b =>
      have hword : Interpretation.language.truth (.bool b) = b := Bool.not_not b
      exact ⟨literal (.bool b), rfl, by simp [literals], rfl, congrArg Chain.one hword⟩
  | not e ih =>
    intro ch hch
    cases ch with
    | join rest c b => simp [Chain.connectives, connectives] at hch
    | one b =>
      obtain ⟨e', hshape, hwords, hevaluator, hlanguage⟩ := ih.exists_truth_eq !b
      have hone (reading : Interpretation) (h : e'.truth reading = !b) :
          (not e').chain reading = .one b := by
        rw [chain, ← truth, h, Bool.not_not]
      exact ⟨not e', congrArg not hshape, hwords, hone _ hevaluator, hone _ hlanguage⟩
  | group e ih =>
    intro ch hch
    cases ch with
    | join rest c b => simp [Chain.connectives, connectives] at hch
    | one b =>
      obtain ⟨e', hshape, hwords, hevaluator, hlanguage⟩ := ih.exists_truth_eq b
      exact ⟨group e', congrArg group hshape, hwords, congrArg Chain.one hevaluator,
        congrArg Chain.one hlanguage⟩
  | join l c r ihl ihr =>
    intro ch hch
    cases ch with
    | one b => simp [Chain.connectives, connectives] at hch
    | join rest d b =>
      obtain ⟨hrest, rfl⟩ : rest.connectives = l.connectives ∧ d = c := by
        simpa [Chain.connectives, connectives] using hch
      obtain ⟨l', hshape, hwords, hevaluator, hlanguage⟩ := ihl rest hrest
      obtain ⟨r', hshape', hwords', hevaluator', hlanguage'⟩ := ihr.exists_truth_eq b
      have hjoin (reading : Interpretation) (h : l'.chain reading = rest)
          (h' : r'.truth reading = b) : (join l' d r').chain reading = rest.join d b := by
        rw [chain, h, ← truth, h']
      exact ⟨join l' d r', congrArg₂ (join · d ·) hshape hshape',
        List.forall_mem_append.mpr ⟨hwords, hwords'⟩, hjoin _ hevaluator hevaluator',
        hjoin _ hlanguage hlanguage'⟩

/-! ## Disagreement -/

/-- Some literals with `p` tell the two readings of a shape apart. -/
def Tells {α : Type} (p : Value → Prop) (e : Logic α) : Prop :=
  ∃ e' : Logic Value, e'.shape = e.shape ∧ (∀ v ∈ e'.literals, p v) ∧
    e'.truth .evaluator ≠ e'.truth .language

namespace Tells

variable {α : Type} {p : Value → Prop}

theorem not {e : Logic α} (h : e.Tells p) : e.not.Tells p := by
  obtain ⟨e', hshape, hliterals, hne⟩ := h
  exact ⟨e'.not, congrArg Logic.not hshape, hliterals, by simpa using hne⟩

theorem group {e : Logic α} (h : e.Tells p) : e.group.Tells p := by
  obtain ⟨e', hshape, hliterals, hne⟩ := h
  exact ⟨e'.group, congrArg Logic.group hshape, hliterals, by simpa using hne⟩

/-- The operand after the connective can be neutral. -/
theorem join_left {l : Logic α} (h : l.Tells p) (hp : ∀ b, p (.bool b)) (c : Connective)
    (r : Logic α) : (l.join c r).Tells p := by
  obtain ⟨l', hshape, hliterals, hne⟩ := h
  obtain ⟨r', hshape', hwords, hevaluator, hlanguage⟩ := r.settable.exists_truth_eq c.neutral
  have hr' : ∀ v ∈ r'.literals, p v := fun v hv => by
    obtain ⟨b, rfl⟩ := hwords v hv
    exact hp b
  have htwo : (l'.join c r').truth .evaluator = l'.truth .evaluator := by
    rw [truth, chain, ← truth, hevaluator]
    exact Chain.inTwoRanks_join_neutral _ c
  have hfour : (l'.join c r').truth .language = l'.truth .language := by
    rw [truth, chain, ← truth, hlanguage]
    exact Chain.inFourRanks_join_neutral _ c
  exact ⟨l'.join c r', congrArg₂ (Logic.join · c ·) hshape hshape',
    List.forall_mem_append.mpr ⟨hliterals, hr'⟩, by rwa [htwo, hfour]⟩

/-- What is before the connective can leave the operand after it as it is. -/
theorem join_right {r : Logic α} (h : r.Tells p) (hp : ∀ b, p (.bool b)) (l : Logic α)
    (c : Connective) : (l.join c r).Tells p := by
  obtain ⟨r', hshape', hliterals, hne⟩ := h
  obtain ⟨ch, hch, hlast⟩ := Chain.exists_join_eq l.connectives c
  obtain ⟨l', hshape, hwords, hevaluator, hlanguage⟩ := l.settable ch hch
  have hl' : ∀ v ∈ l'.literals, p v := fun v hv => by
    obtain ⟨b, rfl⟩ := hwords v hv
    exact hp b
  have htwo : (l'.join c r').truth .evaluator = r'.truth .evaluator := by
    rw [truth, chain, ← truth, hevaluator]
    exact (hlast _).1
  have hfour : (l'.join c r').truth .language = r'.truth .language := by
    rw [truth, chain, ← truth, hlanguage]
    exact (hlast _).2
  exact ⟨l'.join c r', congrArg₂ (Logic.join · c ·) hshape hshape',
    List.forall_mem_append.mpr ⟨hl', hliterals⟩, by rwa [htwo, hfour]⟩

end Tells

/-- Where a `||` and an `and` meet, words tell the readings apart. -/
theorem tells_word {α : Type} {e : Logic α} (h : ¬ e.Unmixed) : e.Tells fun v => ∃ b, v = .bool b := by
  -- Either they meet outside parentheses, or they meet in some operand.
  have houter {e : Logic α} (hmix : Mixes e.connectives) : e.Tells fun v => ∃ b, v = .bool b := by
    obtain ⟨ch, hch, hne⟩ := Chain.exists_inTwoRanks_ne hmix
    obtain ⟨e', hshape, hwords, hevaluator, hlanguage⟩ := e.settable ch hch
    refine ⟨e', hshape, hwords, ?_⟩
    rw [truth, truth, hevaluator, hlanguage]
    exact hne
  by_cases hmix : Mixes e.connectives
  · exact houter hmix
  have hinner : ¬ e.OperandsUnmixed := fun hoperands => h ⟨hmix, hoperands⟩
  clear h hmix
  induction e with
  | literal a => exact absurd trivial hinner
  | not e ih =>
    by_cases hmix : Mixes e.connectives
    · exact (houter hmix).not
    · exact (ih fun hoperands => hinner ⟨hmix, hoperands⟩).not
  | group e ih =>
    by_cases hmix : Mixes e.connectives
    · exact (houter hmix).group
    · exact (ih fun hoperands => hinner ⟨hmix, hoperands⟩).group
  | join l c r ihl ihr =>
    by_cases hl : l.OperandsUnmixed
    · by_cases hmix : Mixes r.connectives
      · exact (houter hmix).join_right (fun b => ⟨b, rfl⟩) l c
      · exact (ihr fun hr => hinner ⟨hl, hmix, hr⟩).join_right (fun b => ⟨b, rfl⟩) l c
    · exact (ihl hl).join_left (fun b => ⟨b, rfl⟩) c r

/-- In every shape the text `0`, put for one literal, tells the readings apart. -/
theorem tells_zero {α : Type} (e : Logic α) :
    e.Tells fun v => (∃ b, v = .bool b) ∨ v = .text "0" := by
  induction e with
  | literal a => exact ⟨literal (.text "0"), rfl, by simp [literals], by decide⟩
  | not e ih => exact ih.not
  | group e ih => exact ih.group
  | join l c r ihl ihr => exact ihl.join_left (fun b => .inl ⟨b, rfl⟩) c r

end Logic

end Reflection
