import Mathlib.Data.Nat.Digits.Defs
import Reflection.Proofs.Constant.Soundness
import Reflection.Proofs.Report

/-!
# Faults that are no refusal

An expression that is not supported is refused, and a scan passes over it. Some operations fail for
reasons of their own instead: integers that have no text or no double, texts and doubles that are no
integers, counts that are negative or too large, keys that are lists, and escapes beyond the last code
point. Such a fault escapes from evaluation, and nothing else does.

## Main definitions

* `EvaluationFault.Escapes`: a fault is no refusal.
* `EvaluationFault.OfReading`: a fault is a refusal for how an expression is written.
* `BinaryOp.MayEscape`, `EvaluationFault.AboutKey`, `EvaluationFault.AboutCode`: where faults arise.
* `Expression.MayEscape`: a fault may arise in an expression.

## Main statements

* `BinaryOp.mayEscape_iff`: the faults of operators.
* `EvaluationFault.aboutKey_iff`: the faults of keys.
* `Expression.faultsOnly_value`: the faults of a value, none of which is a refusal of what is written.
* `escapesOnly_evaluate`: where a fault arises that escapes from evaluation.
-/
namespace Reflection

open Number Text

/-- A fault is no refusal of what is not supported. -/
def EvaluationFault.Escapes : EvaluationFault → Prop
  | unsupported .. => False
  | _ => True

/-- A text is not the text of an integer. -/
def NoInteger (s : CodeText) : Prop := s.string?.bind (readInteger? 10) = none

/-- The faults that a computation ends with have a property, refusals apart. -/
def EscapesOnly {α : Type} (P : EvaluationFault → Prop) (x : Except EvaluationFault α) : Prop :=
  ∀ fault, x = .error fault → fault.Escapes → P fault

/-- What is written is refused, whatever the values are. -/
def Unsupported.OfReading : Unsupported → Prop
  | empty | unexpected _ | unexpectedEnd | expected .. | unexpectedInArray _ | cannotEvaluate _
  | nestedTooDeeply => True
  | _ => False

/-- A fault is a refusal of what is written. -/
def EvaluationFault.OfReading : EvaluationFault → Prop
  | unsupported cause _ => cause.OfReading
  | _ => False

/-- The faults that a computation with values ends with have a property, refusals apart; and it refuses
nothing for how it is written. -/
def FaultsOnly {α : Type} (P : EvaluationFault → Prop) (x : Except EvaluationFault α) : Prop :=
  ∀ fault, x = .error fault → ¬ fault.OfReading ∧ (fault.Escapes → P fault)

namespace FaultsOnly

variable {α β : Type} {P Q : EvaluationFault → Prop}

theorem escapesOnly {x : Except EvaluationFault α} (hx : FaultsOnly P x) : EscapesOnly P x :=
  fun fault hfault => (hx fault hfault).2

theorem ok (a : α) : FaultsOnly P (.ok a) := by
  intro fault h
  cases h

theorem refusal {cause : Unsupported} {line : Int} (hcause : ¬ cause.OfReading) :
    FaultsOnly P (.error (.unsupported cause line) : Except EvaluationFault α) := by
  intro fault h
  cases h
  exact ⟨hcause, fun hescapes => hescapes.elim⟩

theorem error {fault : EvaluationFault} (hwritten : ¬ fault.OfReading) (h : P fault) :
    FaultsOnly P (.error fault : Except EvaluationFault α) := by
  intro fault' h'
  cases h'
  exact ⟨hwritten, fun _ => h⟩

theorem bind {x : Except EvaluationFault α} {f : α → Except EvaluationFault β}
    (hx : FaultsOnly P x) (hf : ∀ a, FaultsOnly P (f a)) : FaultsOnly P (x >>= f) := by
  cases x with
  | ok a => exact hf a
  | error fault => exact fun fault' h => hx fault' (by cases h; rfl)

theorem map {x : Except EvaluationFault α} (f : α → β) (hx : FaultsOnly P x) :
    FaultsOnly P (x.map f) := by
  cases x with
  | ok a => exact ok _
  | error fault => exact fun fault' h => hx fault' (by cases h; rfl)

theorem mono {x : Except EvaluationFault α} (hx : FaultsOnly P x) (h : ∀ fault, P fault → Q fault) :
    FaultsOnly Q x := by
  intro fault hfault
  obtain ⟨hwritten, hescapes⟩ := hx fault hfault
  exact ⟨hwritten, fun hfault => h fault (hescapes hfault)⟩

end FaultsOnly

/-! ## Operators -/

/-- The faults that escape from an operator between two operands. -/
def BinaryOp.MayEscape : BinaryOp → EvaluationFault → Prop
  | concat, .tooManyDigits => True
  | add, .outOfRange | subtract, .outOfRange | multiply, .outOfRange | divide, .outOfRange => True
  | multiply, .tooLarge => True
  | remainder, .notAnInteger s => NoInteger s
  | remainder, .undefinedInteger | remainder, .infiniteInteger => True
  | shiftLeft, .negativeShift | shiftLeft, .outOfRange | shiftLeft, .tooLarge => True
  | shiftRight, .negativeShift => True
  | _, _ => False

theorem faultsOnly_floatOf (n : Int) : FaultsOnly (· = .outOfRange) (floatOf n) := by
  unfold floatOf
  split
  · exact .ok _
  · exact .error id rfl

theorem faultsOnly_integerPart (x : Float) :
    FaultsOnly (fun fault => fault = .undefinedInteger ∨ fault = .infiniteInteger)
      (integerPart x) := by
  unfold integerPart
  split_ifs
  · exact .error id (.inl rfl)
  · exact .error id (.inr rfl)
  · exact .ok _

theorem faultsOnly_integerOfText (s : CodeText) :
    FaultsOnly (fun fault => fault = .notAnInteger s ∧ NoInteger s) (integerOfText s) := by
  unfold integerOfText
  split
  · exact .ok _
  · rename_i h
    exact .error id ⟨rfl, h⟩

namespace Value

theorem faultsOnly_asText (v : Value) : FaultsOnly (· = .tooManyDigits) v.asText := by
  unfold asText
  split
  · exact .ok _
  · exact .ok _
  · split
    · exact .ok _
    · exact .error id rfl
  · exact .ok _
  · exact .ok _
  · exact .refusal id
  · exact .refusal id

theorem faultsOnly_of_asFloat? {v : Value} {x : Except EvaluationFault Float}
    (h : v.asFloat? = some x) : FaultsOnly (· = .outOfRange) x := by
  cases v with
  | float y =>
    cases h
    exact .ok _
  | bool b =>
    cases h
    exact faultsOnly_floatOf _
  | int n =>
    cases h
    exact faultsOnly_floatOf _
  | _ => cases h

theorem faultsOnly_copies {α : Type} (count : Int) (items : List α) :
    FaultsOnly (fun fault => fault = .outOfRange ∨ fault = .tooLarge) (copies count items) := by
  unfold copies
  split_ifs
  · exact .error id (.inl rfl)
  · exact .error id (.inr rfl)
  · exact .ok _
  · exact .ok _

theorem faultsOnly_textCopies (count : Int) (s : CodeText) :
    FaultsOnly (fun fault => fault = .outOfRange ∨ fault = .tooLarge) (textCopies count s) := by
  unfold textCopies
  split_ifs
  · exact .error id (.inl rfl)
  · exact (faultsOnly_copies _ _).map _

end Value

namespace BinaryOp

open Value

variable {P : EvaluationFault → Prop}

theorem faultsOnly_arithmetic (op : BinaryOp) (exact : Int → Int → Int)
    (rounded : Float → Float → Float) (left right : Value) :
    FaultsOnly (· = .outOfRange) (op.arithmetic exact rounded left right) := by
  unfold arithmetic
  split
  · exact .ok _
  · rename_i hx hy _
    exact (faultsOnly_of_asFloat? hx).bind fun _ =>
      (faultsOnly_of_asFloat? hy).bind fun _ => .ok _
  · exact .refusal id

theorem faultsOnly_quotient (left right : Value) :
    FaultsOnly (· = .outOfRange) (quotient left right) := by
  unfold quotient
  split
  · split_ifs
    · exact .refusal id
    · exact .ok _
    · split
      · exact .ok _
      · exact .error id rfl
  · rename_i hx hy _
    refine (faultsOnly_of_asFloat? hx).bind fun _ => (faultsOnly_of_asFloat? hy).bind fun _ => ?_
    split_ifs
    · exact .refusal id
    · exact .ok _
  · exact .refusal id

theorem faultsOnly_remainderOperand (v : Value) :
    FaultsOnly remainder.MayEscape (remainderOperand v) := by
  unfold remainderOperand
  split
  · exact .ok _
  · exact .ok _
  · refine (faultsOnly_integerPart _).mono fun fault h => ?_
    rcases h with rfl | rfl <;> trivial
  · refine (faultsOnly_integerOfText _).mono fun fault h => ?_
    obtain ⟨rfl, h⟩ := h
    exact h
  all_goals exact .refusal id

theorem faultsOnly_bitwise (op : BinaryOp) (f : Int → Int → Int) (left right : Value) :
    FaultsOnly P (op.bitwise f left right) := by
  unfold bitwise
  split
  · exact .ok _
  · split
    · exact .ok _
    · exact .refusal id

theorem faultsOnly_shifted (op : BinaryOp) {f : Int → Nat → Except EvaluationFault Int}
    (hf : ∀ m n, FaultsOnly P (f m n)) (hnegative : P .negativeShift) (left right : Value) :
    FaultsOnly P (op.shifted f left right) := by
  unfold shifted
  split
  · split_ifs
    · exact .error id hnegative
    · exact (hf _ _).map _
  · exact .refusal id

theorem faultsOnly_of_repeated? {left right : Value} {x : Except EvaluationFault Value}
    (h : repeated? left right = some x) :
    FaultsOnly (fun fault => fault = .outOfRange ∨ fault = .tooLarge) x := by
  unfold repeated? at h
  dsimp only at h
  split at h
  · cases h
    exact (faultsOnly_textCopies _ _).map _
  · cases h
    exact (faultsOnly_copies _ _).map _
  · cases h
    exact (faultsOnly_textCopies _ _).map _
  · cases h
    exact (faultsOnly_copies _ _).map _
  · cases h

/-- No other fault escapes from an operator. -/
theorem faultsOnly_apply (op : BinaryOp) (left right : Value) :
    FaultsOnly op.MayEscape (op.apply left right) := by
  have harithmetic : ∀ (op' : BinaryOp) (e : Int → Int → Int) (r : Float → Float → Float),
      op.MayEscape .outOfRange → FaultsOnly op.MayEscape (op'.arithmetic e r left right) :=
    fun op' e r h => (faultsOnly_arithmetic op' e r left right).mono fun fault hfault => hfault ▸ h
  unfold apply
  cases op with
  | concat =>
    have htext : ∀ v : Value, FaultsOnly concat.MayEscape v.asText := fun v =>
      v.faultsOnly_asText.mono fun fault h => h ▸ trivial
    exact (htext left).bind fun _ => (htext right).bind fun _ => .ok _
  | or => exact .ok _
  | orWord => exact .ok _
  | and => exact .ok _
  | andWord => exact .ok _
  | add =>
    dsimp only
    split
    · exact .ok _
    · exact .ok _
    · exact .ok _
    · exact harithmetic _ _ _ trivial
  | subtract => exact harithmetic _ _ _ trivial
  | multiply =>
    dsimp only
    cases hrepeated : repeated? left right with
    | none => exact harithmetic _ _ _ trivial
    | some x =>
      refine (faultsOnly_of_repeated? hrepeated).mono fun fault h => ?_
      rcases h with rfl | rfl <;> trivial
  | divide => exact (faultsOnly_quotient left right).mono fun fault h => h ▸ trivial
  | remainder =>
    refine (faultsOnly_remainderOperand left).bind fun _ =>
      (faultsOnly_remainderOperand right).bind fun _ => ?_
    split_ifs
    · exact .refusal id
    · exact .ok _
  | bitOr =>
    dsimp only
    split
    · exact .ok _
    · exact faultsOnly_bitwise _ _ _ _
  | bitXor => exact faultsOnly_bitwise _ _ _ _
  | bitAnd => exact faultsOnly_bitwise _ _ _ _
  | shiftLeft =>
    refine faultsOnly_shifted _ (fun m n => ?_) trivial left right
    split_ifs
    · exact .ok _
    · exact .error id trivial
    · exact .error id trivial
    · exact .ok _
  | shiftRight => exact faultsOnly_shifted _ (fun m n => .ok _) trivial left right

/-- Some integers have no double. -/
theorem exists_ofInt?_eq_none : ∃ n, ofInt? n = none := ⟨10 ^ 400, by decide +kernel⟩

theorem length_toDigits_pow (n : Nat) : (Nat.toDigits 10 (10 ^ n)).length = n + 1 := by
  induction n with
  | zero => rfl
  | succ n ih =>
    have hsplit := Nat.toDigits_append_toDigits (b := 10) (n := 10 ^ n) (d := 0) (by decide)
      (Nat.pow_pos (by decide)) (by decide)
    rw [Nat.add_zero, ← Nat.pow_succ'] at hsplit
    rw [← hsplit, List.length_append, ih]
    rfl

/-- Some integers have no text. -/
theorem exists_writeInteger?_eq_none : ∃ n, writeInteger? n = none := by
  -- The limit is kept abstract, so that the power is not computed.
  obtain ⟨k, hk⟩ : ∃ k, k = maxDecimalDigits := ⟨_, rfl⟩
  refine ⟨((10 ^ k : Nat) : Int), ?_⟩
  rw [writeInteger?, if_pos]
  rw [Int.natAbs_natCast, decimal, String.length_ofList, length_toDigits_pow, hk]
  exact Nat.lt_succ_self _

theorem arithmetic_outOfRange {n : Int} (h : ofInt? n = none) (op : BinaryOp)
    (exact : Int → Int → Int) (rounded : Float → Float → Float) :
    op.arithmetic exact rounded (.int n) (.float 0) = .error .outOfRange := by
  simp only [arithmetic, asInt?, asFloat?, floatOf, h]
  rfl

theorem quotient_outOfRange {n : Int} (h : ofInt? n = none) :
    quotient (.int n) (.float 0) = .error .outOfRange := by
  simp only [quotient, asInt?, asFloat?, floatOf, h]
  rfl

/-- The faults that escape from operators are just those that are listed. -/
theorem mayEscape_iff {op : BinaryOp} {fault : EvaluationFault} :
    op.MayEscape fault ↔ fault.Escapes ∧ ∃ left right, op.apply left right = .error fault := by
  constructor
  · intro h
    -- One pair of operands for each fault of the list.
    obtain ⟨large, hlarge⟩ := exists_ofInt?_eq_none
    obtain ⟨long, hlong⟩ := exists_writeInteger?_eq_none
    unfold MayEscape at h
    split at h
    · refine ⟨trivial, .int long, .null, ?_⟩
      simp only [apply, asText, hlong]
      rfl
    · exact ⟨trivial, .int large, .float 0, arithmetic_outOfRange hlarge add (· + ·) (· + ·)⟩
    · exact ⟨trivial, .int large, .float 0, arithmetic_outOfRange hlarge subtract (· - ·) (· - ·)⟩
    · exact ⟨trivial, .int large, .float 0, arithmetic_outOfRange hlarge multiply (· * ·) (· * ·)⟩
    · exact ⟨trivial, .int large, .float 0, quotient_outOfRange hlarge⟩
    · exact ⟨trivial, .int (2 ^ 40), .list [.null], rfl⟩
    · rename_i s
      refine ⟨trivial, .text s, .null, ?_⟩
      simp only [apply, remainderOperand, integerOfText, show s.string?.bind _ = none from h]
      rfl
    · exact ⟨trivial, .float (0 / 0), .null, rfl⟩
    · exact ⟨trivial, .float (1 / 0), .null, rfl⟩
    · exact ⟨trivial, .int 1, .int (-1), rfl⟩
    · exact ⟨trivial, .int 1, .int (2 ^ 70), rfl⟩
    · exact ⟨trivial, .int 1, .int (2 ^ 40), rfl⟩
    · exact ⟨trivial, .int 1, .int (-1), rfl⟩
    · exact h.elim
  · intro ⟨hescapes, left, right, h⟩
    exact (faultsOnly_apply op left right fault h).2 hescapes

end BinaryOp

/-! ## Keys -/

/-- The faults that a key may have. -/
def EvaluationFault.AboutKey : EvaluationFault → Prop
  | unusableKey | undefinedInteger | infiniteInteger => True
  | notAnInteger s => s.string?.any Value.looksIntegral ∧ NoInteger s
  | _ => False

namespace Value

theorem faultsOnly_asKey (next : Int) (v : Value) :
    FaultsOnly EvaluationFault.AboutKey (v.asKey next) := by
  unfold asKey
  split
  · exact .ok _
  · exact .ok _
  · exact .ok _
  · refine ((faultsOnly_integerPart _).mono fun fault h => ?_).map _
    rcases h with rfl | rfl <;> trivial
  · split_ifs with hlooks
    · refine ((faultsOnly_integerOfText _).mono fun fault h => ?_).bind fun _ => ?_
      · obtain ⟨rfl, h⟩ := h
        exact ⟨hlooks, h⟩
      · split_ifs <;> exact .ok _
    · exact .ok _
  · exact .error id trivial
  · exact .error id trivial

theorem faultsOnly_entriesFrom (next : Int) (entries : List (Key × Value))
    (elements : List (Option Value × Value)) :
    FaultsOnly EvaluationFault.AboutKey (entriesFrom next entries elements) := by
  induction elements generalizing next entries with
  | nil => exact .ok _
  | cons element rest ih =>
    obtain ⟨key, value⟩ := element
    exact (faultsOnly_asKey next (key.getD null)).bind fun key =>
      ih (nextAfter next key) (Table.insert entries key value)

/-- Only an array with a key can have a fault. -/
theorem faultsOnly_arrayOf (elements : List (Option Value × Value)) :
    FaultsOnly (fun fault => fault.AboutKey ∧ elements.any (·.1.isSome))
      (Value.arrayOf elements) := by
  unfold arrayOf
  split_ifs with hkeyed
  · exact ((faultsOnly_entriesFrom 0 [] elements).mono fun fault h => ⟨h, hkeyed⟩).map _
  · exact .ok _

end Value

/-- The faults that keys have are just those that are listed. -/
theorem EvaluationFault.aboutKey_iff {fault : EvaluationFault} :
    fault.AboutKey ↔ fault.Escapes ∧ ∃ (next : Int) (v : Value), v.asKey next = .error fault := by
  constructor
  · intro h
    unfold AboutKey at h
    split at h
    · exact ⟨trivial, 0, .list [], rfl⟩
    · exact ⟨trivial, 0, .float (0 / 0), rfl⟩
    · exact ⟨trivial, 0, .float (1 / 0), rfl⟩
    · rename_i s
      obtain ⟨hlooks, hnone⟩ := h
      refine ⟨trivial, 0, .text s, ?_⟩
      simp only [Value.asKey, if_pos hlooks, integerOfText, show s.string?.bind _ = none from hnone]
      rfl
    · exact h.elim
  · intro ⟨hescapes, next, v, h⟩
    exact (v.faultsOnly_asKey next fault h).2 hescapes

/-! ## Literals -/

/-- The faults that the escape of a code point may have: the code point is above the last one. -/
def EvaluationFault.AboutCode : EvaluationFault → Prop
  | noCharacter code | hugeCode code => 0x10FFFF < code
  | _ => False

theorem faultsOnly_codePointOf (code : Nat) :
    FaultsOnly EvaluationFault.AboutCode (codePointOf code) := by
  unfold codePointOf CodePoint.ofNat?
  split
  · exact .ok _
  · rename_i h
    split_ifs at h with hsurrogate hlast
    split_ifs
    · exact .error id (Nat.lt_of_not_le hlast)
    · exact .error id (Nat.lt_of_not_le hlast)

theorem faultsOnly_decodeEscapes (cs : List Char) :
    FaultsOnly EvaluationFault.AboutCode (decodeEscapes cs) := by
  fun_induction decodeEscapes cs with
  | case1 => exact .ok _
  | case2 c rest code used hescape ih =>
    exact (faultsOnly_codePointOf code).bind fun _ => ih.bind fun _ => .ok _
  | case3 c rest hescape ih => exact ih.map _

theorem faultsOnly_parseString (text : String) (line : Int) :
    FaultsOnly EvaluationFault.AboutCode (parseString text line) := by
  have hdouble : ∀ body, FaultsOnly EvaluationFault.AboutCode (decodeDouble line body) := by
    intro body
    unfold decodeDouble
    split_ifs
    · exact .refusal id
    · exact (faultsOnly_decodeEscapes body).map _
  unfold parseString
  dsimp only
  split
  · exact .ok _
  · exact hdouble _
  · split_ifs
    · exact .ok _
    · exact hdouble _
  · exact .refusal id

theorem faultsOnly_parseNumber (P : EvaluationFault → Prop) (text : String) :
    FaultsOnly P (parseNumber text) := by
  unfold parseNumber
  split
  · exact .ok _
  · exact .refusal id

theorem UnaryOp.faultsOnly_apply (P : EvaluationFault → Prop) (op : UnaryOp) (line : Int)
    (operand : Value) : FaultsOnly P (op.apply line operand) := by
  unfold apply
  dsimp only
  split
  all_goals first | exact .ok _ | exact .refusal id

/-! ## Expressions -/

mutual

/-- A fault may escape from an expression: from an operator, from a key, or from the escape of a code
point in a text. -/
def Expression.MayEscape (fault : EvaluationFault) : Expression → Prop
  | .word _ | .number _ | .reference .. => False
  | .string text line => fault.AboutCode ∧ parseString text line = .error fault
  | .group inner => inner.MayEscape fault
  | .unary _ _ operand => operand.MayEscape fault
  | .binary op left right => left.MayEscape fault ∨ right.MayEscape fault ∨ op.MayEscape fault
  | .array elements => ArrayElement.MayEscapeFrom fault elements

/-- A fault may escape from the elements of an array. -/
def ArrayElement.MayEscapeFrom (fault : EvaluationFault) : List ArrayElement → Prop
  | [] => False
  | .positional value :: rest => value.MayEscape fault ∨ ArrayElement.MayEscapeFrom fault rest
  | .keyed key value :: rest =>
    fault.AboutKey ∨ key.MayEscape fault ∨ value.MayEscape fault ∨
      ArrayElement.MayEscapeFrom fault rest

end

variable {lookup : ConstantLookup}

/-- An array whose elements have keys may have the faults of keys. -/
theorem ArrayElement.mayEscapeFrom_of_aboutKey {fault : EvaluationFault} (h : fault.AboutKey)
    {elements : List ArrayElement} {values : List (Option Value × Value)}
    (hvalues : ArrayElement.values lookup elements = .ok values)
    (hkeyed : values.any (·.1.isSome)) : ArrayElement.MayEscapeFrom fault elements := by
  induction elements generalizing values with
  | nil =>
    cases hvalues
    cases hkeyed
  | cons element rest ih =>
    cases element with
    | positional value =>
      simp only [ArrayElement.values] at hvalues
      obtain ⟨v, -, hvalues⟩ := exists_ok_of_bind hvalues
      obtain ⟨restValues, hrest, heq⟩ := exists_ok_of_bind hvalues
      cases heq
      exact .inr (ih hrest (by simpa using hkeyed))
    | keyed key value => exact .inl h

mutual

/-- No fault escapes from an expression but those that may escape from its parts. -/
theorem Expression.faultsOnly_value (e : Expression) :
    FaultsOnly (fun fault => e.MayEscape fault) (e.value lookup) := by
  cases e with
  | word v => exact .ok _
  | number text => exact faultsOnly_parseNumber _ text
  | string text line =>
    simp only [Expression.value]
    refine FaultsOnly.map _ fun fault hfault => ?_
    obtain ⟨hwritten, hcode⟩ := faultsOnly_parseString text line fault hfault
    exact ⟨hwritten, fun hescapes => ⟨hcode hescapes, hfault⟩⟩
  | reference name line =>
    simp only [Expression.value]
    split
    · exact .ok _
    · exact .refusal id
  | group inner => exact inner.faultsOnly_value
  | unary op line operand =>
    exact operand.faultsOnly_value.bind fun v => op.faultsOnly_apply _ line v
  | binary op left right =>
    exact (left.faultsOnly_value.mono fun _ h => .inl h).bind fun l =>
      (right.faultsOnly_value.mono fun _ h => .inr (.inl h)).bind fun r =>
        (op.faultsOnly_apply l r).mono fun _ h => .inr (.inr h)
  | array elements =>
    simp only [Expression.value]
    cases hvalues : ArrayElement.values lookup elements with
    | error fault =>
      intro fault' h
      cases h
      exact ArrayElement.faultsOnly_values elements fault hvalues
    | ok values =>
      refine (Value.faultsOnly_arrayOf values).mono fun fault h => ?_
      exact ArrayElement.mayEscapeFrom_of_aboutKey h.1 hvalues h.2

theorem ArrayElement.faultsOnly_values (elements : List ArrayElement) :
    FaultsOnly (fun fault => ArrayElement.MayEscapeFrom fault elements)
      (ArrayElement.values lookup elements) := by
  match elements with
  | [] => exact .ok _
  | .positional value :: rest =>
    exact (value.faultsOnly_value.mono fun _ h => .inl h).bind fun v =>
      ((ArrayElement.faultsOnly_values rest).mono fun _ h => .inr h).bind fun _ => .ok _
  | .keyed key value :: rest =>
    exact (key.faultsOnly_value.mono fun _ h => .inr (.inl h)).bind fun k =>
      (value.faultsOnly_value.mono fun _ h => .inr (.inr (.inl h))).bind fun v =>
        ((ArrayElement.faultsOnly_values rest).mono fun _ h => .inr (.inr (.inr h))).bind
          fun _ => .ok _

end

/-- The expressions that are evaluated for a list of tokens: the one that they spell, or those that
stand before the break. -/
def Expression.parts (room : Nat) (ts : List Token) : List Expression :=
  match Expression.ofTokens room ts with
  | .ok e => [e]
  | .error b => b.before

theorem faultsOnly_mapM_value (es : List Expression) :
    FaultsOnly (fun fault => ∃ e ∈ es, e.MayEscape fault)
      (es.mapM (Expression.value lookup)) := by
  induction es with
  | nil => exact .ok _
  | cons e rest ih =>
    rw [List.mapM_cons]
    refine (e.faultsOnly_value.mono fun _ h => ⟨e, List.mem_cons_self .., h⟩).bind fun v =>
      FaultsOnly.bind (ih.mono fun _ h => ?_) fun _ => .ok _
    obtain ⟨e', he', h⟩ := h
    exact ⟨e', List.mem_cons_of_mem _ he', h⟩

/-- A fault that escapes from evaluation is one that may escape from an expression that is evaluated. -/
theorem escapesOnly_evaluate (room : Nat) (ts : List Token) :
    EscapesOnly (fun fault => ∃ e ∈ Expression.parts room ts, e.MayEscape fault)
      (evaluate lookup room ts) := by
  unfold evaluate Expression.parts
  cases Expression.ofTokens room ts with
  | ok e =>
    exact (e.faultsOnly_value.mono fun _ h => ⟨e, List.mem_singleton_self e, h⟩).escapesOnly
  | error b =>
    have hbefore : EscapesOnly (fun fault => ∃ e ∈ b.before, e.MayEscape fault)
        (b.before.mapM (Expression.value lookup)) := (faultsOnly_mapM_value b.before).escapesOnly
    intro fault h hescapes
    cases hvalues : b.before.mapM (Expression.value lookup) with
    | ok values =>
      simp only [hvalues, bind, Except.bind] at h
      cases h
      exact hescapes.elim
    | error fault' =>
      simp only [hvalues, bind, Except.bind] at h
      cases h
      exact hbefore fault hvalues hescapes

end Reflection
