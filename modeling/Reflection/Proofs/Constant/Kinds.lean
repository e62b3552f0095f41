import Mathlib.Data.List.Basic
import Reflection.Proofs.Constant.Escape
import Reflection.Proofs.Report

/-!
# Kinds of operands and of results

The kinds of its operands decide whether an operator has a value and of what kind this is. Most
operators keep to the kinds that they are made for: arithmetic gives numbers, bitwise operators and
shifts give integers, and so on. A few combinations of operands stray from this. A sum of two texts
joins them, a product of a text or a list and an integer repeats it, and bitwise operators keep to
booleans or, in one case, to maps.

## Main definitions

* `ValueKind`, `Value.kind`: kinds of values.
* `BinaryOp.resultKinds`: the kinds of the results of an operator.
* `BinaryOp.Keeps`: a result is of the kind that its operator is made for.
* `BinaryOp.Strays`, `BinaryOp.Joins`: the operands of other results.

## Main statements

* `BinaryOp.yields_apply`: results and refusals by the kinds of operands.
* `BinaryOp.exists_result`: every kind of result occurs.
* `BinaryOp.apply_kinds`: the kinds that operators keep, and those that they do not.
-/
namespace Reflection

open Number Text

/-- Kinds of values. -/
inductive ValueKind
  | null
  | bool
  | int
  | float
  | text
  | list
  | map
  deriving DecidableEq, Repr

/-- Kind of a value. -/
def Value.kind : Value → ValueKind
  | null => .null
  | bool _ => .bool
  | int _ => .int
  | float _ => .float
  | text _ => .text
  | list _ => .list
  | map _ => .map

namespace ValueKind

/-- Every kind. -/
def all : List ValueKind := [null, bool, int, float, text, list, map]

/-- Numbers are integers and doubles. -/
def isNumber (k : ValueKind) : Bool := k ∈ [int, float]

/-- Arrays are lists and maps. -/
def isArray (k : ValueKind) : Bool := k ∈ [list, map]

/-- Values that count as integers in arithmetic. -/
def isWhole (k : ValueKind) : Bool := k ∈ [bool, int]

/-- Values that count as numbers in arithmetic. -/
def isNumeric (k : ValueKind) : Bool := k ∈ [bool, int, float]

/-- Values that may have an integer part. -/
def isReducible (k : ValueKind) : Bool := k ∈ [bool, int, float, text]

/-- Kinds of the results of arithmetic on numbers. -/
def ofArithmetic (left right : ValueKind) : List ValueKind :=
  if left.isWhole && right.isWhole then [int]
  else if left.isNumeric && right.isNumeric then [float]
  else []

/-- Kinds of the results of shifts. -/
def ofShift (left right : ValueKind) : List ValueKind :=
  if left.isWhole && right.isWhole then [int] else []

/-- Kinds of the results of bitwise operators; two booleans give a boolean. -/
def ofBitwise (left right : ValueKind) : List ValueKind :=
  if left = bool ∧ right = bool then [bool] else ofShift left right

/-- Values of a kind that make every kind of result. -/
def samples : ValueKind → List Value
  | null => [.null]
  | bool => [.bool true]
  | int => [.int 1, .int 2]
  | float => [.float 1]
  | text => [.text "2"]
  | list => [.list []]
  | map => [.map []]

theorem mem_all (k : ValueKind) : k ∈ all := by
  cases k <;> decide

end ValueKind

namespace Value

@[simp] theorem isSome_asInt? (v : Value) : v.asInt?.isSome = v.kind.isWhole := by
  cases v <;> rfl

@[simp] theorem isSome_asFloat? (v : Value) : v.asFloat?.isSome = v.kind.isNumeric := by
  cases v <;> rfl

theorem isWhole_of_asInt? {v : Value} {n : Int} (h : v.asInt? = some n) : v.kind.isWhole = true := by
  rw [← isSome_asInt?, h]
  rfl

theorem isNumeric_of_asFloat? {v : Value} {x : Except EvaluationFault Float}
    (h : v.asFloat? = some x) : v.kind.isNumeric = true := by
  rw [← isSome_asFloat?, h]
  rfl

/-- A text or a list that consists of some operands in full, one after the other. -/
def JoinOf (operands : List Value) : Value → Prop
  | text s => ∃ parts : List CodeText, (∀ p ∈ parts, text p ∈ operands) ∧
      s.points = (parts.map CodeText.points).flatten
  | list items => ∃ parts : List (List Value), (∀ p ∈ parts, list p ∈ operands) ∧
      items = parts.flatten
  | _ => False

end Value

/-- A computation gives values of some kinds only. Where there are no such kinds it fails, by a
refusal unless `escape` holds. -/
structure Yields (kinds : List ValueKind) (escape : Prop) (x : Except EvaluationFault Value) :
    Prop where
  kind_mem : ∀ v, x = .ok v → v.kind ∈ kinds
  refused : kinds = [] → ∃ fault, x = .error fault ∧ (fault.Escapes ↔ escape)

namespace Yields

variable {kinds : List ValueKind} {escape : Prop}

theorem ok {v : Value} (h : v.kind ∈ kinds) : Yields kinds escape (.ok v) where
  kind_mem := by
    rintro _ ⟨⟩
    exact h
  refused := by
    rintro rfl
    cases h

theorem refusal {cause : Unsupported} {line : Int} (h : ¬ escape) :
    Yields kinds escape (.error (.unsupported cause line)) where
  kind_mem := by
    rintro _ ⟨⟩
  refused := fun _ => ⟨_, rfl, iff_of_false id h⟩

/-- A fault of any kind, where results are possible. -/
theorem error {fault : EvaluationFault} (h : kinds ≠ []) : Yields kinds escape (.error fault) where
  kind_mem := by
    rintro _ ⟨⟩
  refused := fun hkinds => absurd hkinds h

theorem bind {α : Type} {x : Except EvaluationFault α} {f : α → Except EvaluationFault Value}
    (hkinds : kinds ≠ []) (hf : ∀ a, x = .ok a → Yields kinds escape (f a)) :
    Yields kinds escape (x >>= f) := by
  cases x with
  | ok a => exact hf a rfl
  | error fault => exact error hkinds

theorem map {α : Type} {x : Except EvaluationFault α} {f : α → Value}
    (h : ∀ a, (f a).kind ∈ kinds) (hkinds : kinds ≠ []) : Yields kinds escape (x.map f) := by
  cases x with
  | ok a => exact ok (h a)
  | error fault => exact error hkinds

end Yields

namespace BinaryOp

open Value ValueKind

/-- Kinds of the results of an operator, by the kinds of its operands. There are none where the
operator does not fit its operands. -/
def resultKinds : BinaryOp → ValueKind → ValueKind → List ValueKind
  | concat, left, right => if left.isArray || right.isArray then [] else [.text]
  | or, _, _ | orWord, _, _ | and, _, _ | andWord, _, _ => [.bool]
  | add, .map, .map => [.map]
  | add, .text, .text => [.text]
  | add, .list, .list => [.list]
  | add, left, right | subtract, left, right => ofArithmetic left right
  | multiply, .text, count => if count.isWhole then [.text] else []
  | multiply, .list, count => if count.isWhole then [.list] else []
  | multiply, count, .text => if count.isWhole then [.text] else []
  | multiply, count, .list => if count.isWhole then [.list] else []
  | multiply, left, right => ofArithmetic left right
  | divide, left, right =>
    if left.isWhole && right == .int then [.int, .float] else ofArithmetic left right
  | remainder, left, right => if left.isReducible && right.isReducible then [.int] else []
  | bitOr, .map, .map => [.map]
  | bitOr, left, right | bitXor, left, right | bitAnd, left, right => ofBitwise left right
  | shiftLeft, left, right | shiftRight, left, right => ofShift left right

/-- A result is of the kind that its operator is made for: a number for arithmetic, or an array for
the sum of two arrays; an integer for bitwise operators and shifts; a text for a concatenation; a
boolean for logical operators. -/
def Keeps : BinaryOp → ValueKind → ValueKind → ValueKind → Bool
  | add, left, right, k => k.isNumber || (left.isArray && right.isArray && k.isArray)
  | subtract, _, _, k | multiply, _, _, k | divide, _, _, k | remainder, _, _, k => k.isNumber
  | bitOr, _, _, k | bitXor, _, _, k | bitAnd, _, _, k | shiftLeft, _, _, k
  | shiftRight, _, _, k => k == .int
  | concat, _, _, k => k == .text
  | or, _, _, k | orWord, _, _, k | and, _, _, k | andWord, _, _, k => k == .bool

/-- Operators of arithmetic. -/
def isArithmetic (op : BinaryOp) : Bool := op ∈ [add, subtract, multiply, divide, remainder]

/-- Operands that an operator of arithmetic joins or repeats: two texts or two lists that are added,
a text or a list that is multiplied. -/
def Joins : BinaryOp → ValueKind → ValueKind → Bool
  | add, .text, .text | add, .list, .list => true
  | multiply, .text, count | multiply, count, .text => count.isWhole
  | multiply, .list, count | multiply, count, .list => count.isWhole
  | _, _, _ => false

/-- Operands whose result is of another kind than the operator is made for. -/
def Strays : BinaryOp → ValueKind → ValueKind → Bool
  | add, .text, .text => true
  | multiply, left, right => Joins multiply left right
  | bitOr, .map, .map => true
  | bitOr, .bool, .bool | bitXor, .bool, .bool | bitAnd, .bool, .bool => true
  | _, _, _ => false

/-- The left operand itself cannot be turned into what the operator works on: an integer that has too
many digits to be written, a double without an integer part, a text that is no integer. -/
def Unreadable : BinaryOp → Value → Prop
  | concat, .int n => writeInteger? n = none
  | remainder, .float x => x.isNaN = true ∨ x.isInf = true
  | remainder, .text s => NoInteger s
  | _, _ => False

theorem mem_all (op : BinaryOp) : op ∈ all := by
  cases op <;> decide

/-! ## The table of kinds -/

theorem keeps_iff_of_mem {op : BinaryOp} {left right k : ValueKind}
    (h : k ∈ op.resultKinds left right) :
    op.Keeps left right k = true ↔ op.Strays left right = false := by
  have htable : ∀ op ∈ all, ∀ left ∈ ValueKind.all, ∀ right ∈ ValueKind.all,
      ∀ k ∈ op.resultKinds left right,
        (op.Keeps left right k = true ↔ op.Strays left right = false) := by
    decide +kernel
  exact htable op op.mem_all left left.mem_all right right.mem_all k h

/-- Arithmetic has a text or a list for its result only where it joins operands. -/
theorem joins_of_mem {op : BinaryOp} {left right k : ValueKind} (hop : op.isArithmetic = true)
    (h : k ∈ op.resultKinds left right) (hk : k = .text ∨ k = .list) :
    op.Joins left right = true := by
  have htable : ∀ op ∈ all, op.isArithmetic = true → ∀ left ∈ ValueKind.all,
      ∀ right ∈ ValueKind.all, ∀ k ∈ op.resultKinds left right, k = .text ∨ k = .list →
        op.Joins left right = true := by
    decide +kernel
  exact htable op op.mem_all hop left left.mem_all right right.mem_all k h hk

/-- Every kind of result occurs. -/
theorem exists_result {op : BinaryOp} {left right k : ValueKind} (h : k ∈ op.resultKinds left right) :
    ∃ l r v, l.kind = left ∧ r.kind = right ∧ op.apply l r = .ok v ∧ v.kind = k := by
  have htable : ∀ op ∈ all, ∀ left ∈ ValueKind.all, ∀ right ∈ ValueKind.all,
      ∀ k ∈ op.resultKinds left right, ∃ l ∈ left.samples, ∃ r ∈ right.samples,
        l.kind = left ∧ r.kind = right ∧ (op.apply l r).toOption.map Value.kind = some k := by
    decide +kernel
  obtain ⟨l, -, r, -, hl, hr, hresult⟩ :=
    htable op op.mem_all left left.mem_all right right.mem_all k h
  obtain ⟨v, hv, hk⟩ := Option.map_eq_some_iff.mp hresult
  refine ⟨l, r, v, hl, hr, ?_, hk⟩
  cases happly : op.apply l r with
  | ok w =>
    rw [happly] at hv
    cases hv
    rfl
  | error fault =>
    rw [happly] at hv
    cases hv

/-! ## Results and refusals -/

theorem ofArithmetic_whole {left right : Value} {m n : Int} (hm : left.asInt? = some m)
    (hn : right.asInt? = some n) : ofArithmetic left.kind right.kind = [.int] := by
  rw [ofArithmetic, isWhole_of_asInt? hm, isWhole_of_asInt? hn]
  rfl

theorem not_whole {left right : Value}
    (h : ∀ m n, left.asInt? = some m → right.asInt? = some n → False) :
    (left.kind.isWhole && right.kind.isWhole) = false := by
  rw [← isSome_asInt?, ← isSome_asInt?]
  cases hm : left.asInt? with
  | none => rfl
  | some m =>
    cases hn : right.asInt? with
    | none => rfl
    | some n => exact (h m n hm hn).elim

theorem ofArithmetic_numeric {left right : Value} {x y : Except EvaluationFault Float}
    (hx : left.asFloat? = some x) (hy : right.asFloat? = some y)
    (hwhole : ∀ m n, left.asInt? = some m → right.asInt? = some n → False) :
    ofArithmetic left.kind right.kind = [.float] := by
  rw [ofArithmetic, not_whole hwhole, isNumeric_of_asFloat? hx, isNumeric_of_asFloat? hy]
  rfl

theorem yields_arithmetic (op : BinaryOp) (exact : Int → Int → Int)
    (rounded : Float → Float → Float) (left right : Value) :
    Yields (ofArithmetic left.kind right.kind) False (op.arithmetic exact rounded left right) := by
  unfold arithmetic
  split
  · rename_i hm hn
    rw [ofArithmetic_whole hm hn]
    exact .ok (List.mem_singleton_self _)
  · rename_i hx hy hwhole
    rw [ofArithmetic_numeric hx hy hwhole]
    exact .bind (by simp) fun _ _ => .bind (by simp) fun _ _ => .ok (List.mem_singleton_self _)
  · exact .refusal id

/-- Only an integer other than zero and one leaves a remainder. -/
theorem kind_eq_int_of_fmod {right : Value} {m n : Int} (hn : right.asInt? = some n) (hzero : n ≠ 0)
    (hinexact : m.fmod n ≠ 0) : right.kind = .int := by
  cases right with
  | int n => rfl
  | bool b =>
    cases hn
    cases b with
    | false => exact absurd rfl hzero
    | true => exact absurd (Int.fmod_one m) hinexact
  | _ => cases hn

theorem yields_quotient (left right : Value) :
    Yields (divide.resultKinds left.kind right.kind) False (quotient left right) := by
  unfold quotient
  split
  · rename_i m n hm hn
    split_ifs with hzero hexact
    · exact .refusal id
    · refine .ok ?_
      rw [resultKinds, ofArithmetic_whole hm hn]
      split_ifs <;> simp [kind]
    · have hfloat : .float ∈ divide.resultKinds left.kind right.kind := by
        simp [resultKinds, isWhole_of_asInt? hm, kind_eq_int_of_fmod hn hzero hexact]
      split
      · exact .ok hfloat
      · exact .error (List.ne_nil_of_mem hfloat)
  · rename_i x y hx hy hwhole
    have hkinds : divide.resultKinds left.kind right.kind = [.float] := by
      have hright : ¬ (left.kind.isWhole = true ∧ right.kind = .int) := by
        rintro ⟨hleft, hright⟩
        have hboth := not_whole hwhole
        rw [hleft, hright] at hboth
        cases hboth
      simp [resultKinds, ofArithmetic_numeric hx hy hwhole, hright]
    rw [hkinds]
    refine .bind (by simp) fun x _ => .bind (by simp) fun y _ => ?_
    split_ifs
    · exact .refusal id
    · exact .ok (List.mem_singleton_self _)
  · exact .refusal id

theorem ofShift_whole {left right : Value} {m n : Int} (hm : left.asInt? = some m)
    (hn : right.asInt? = some n) : ofShift left.kind right.kind = [.int] := by
  rw [ofShift, isWhole_of_asInt? hm, isWhole_of_asInt? hn]
  rfl

theorem yields_shifted (op : BinaryOp) (f : Int → Nat → Except EvaluationFault Int)
    (left right : Value) :
    Yields (ofShift left.kind right.kind) False (op.shifted f left right) := by
  unfold shifted
  split
  · rename_i hm hn
    rw [ofShift_whole hm hn]
    split_ifs
    · exact .error (by simp)
    · exact .map (fun _ => List.mem_singleton_self _) (by simp)
  · exact .refusal id

theorem yields_bitwise (op : BinaryOp) (f : Int → Int → Int) (left right : Value) :
    Yields (ofBitwise left.kind right.kind) False (op.bitwise f left right) := by
  unfold bitwise
  split
  · exact .ok (List.mem_singleton_self _)
  · rename_i hbools
    have hkinds : ¬ (left.kind = .bool ∧ right.kind = .bool) := by
      rintro ⟨hleft, hright⟩
      cases left <;> cases hleft
      cases right <;> cases hright
      exact hbools _ _ rfl rfl
    rw [ofBitwise, if_neg hkinds]
    split
    · rename_i hm hn
      rw [ofShift_whole hm hn]
      exact .ok (List.mem_singleton_self _)
    · exact .refusal id

/-- Operands that are not repeated are multiplied as numbers are. -/
theorem resultKinds_multiply_of_repeated?_eq_none {left right : Value}
    (h : repeated? left right = none) :
    multiply.resultKinds left.kind right.kind = ofArithmetic left.kind right.kind := by
  cases left <;> cases right <;> first | rfl | cases h

/-- Only a text or a list is repeated, by an integer on either side. -/
theorem exists_of_repeated? {left right : Value} {x : Except EvaluationFault Value}
    (h : repeated? left right = some x) :
    ∃ thing count n, (left = thing ∧ right = count ∨ left = count ∧ right = thing) ∧
      count.asInt? = some n ∧
        ((∃ s, thing = .text s ∧ x = (textCopies n s).map .text) ∨
          ∃ items, thing = .list items ∧ x = (copies n items).map .list) := by
  unfold repeated? at h
  dsimp only at h
  split at h
  case h_1 s n hn =>
    exact ⟨_, _, n, .inl ⟨rfl, rfl⟩, hn, .inl ⟨s, rfl, (Option.some.inj h).symm⟩⟩
  case h_2 items n hn =>
    exact ⟨_, _, n, .inl ⟨rfl, rfl⟩, hn, .inr ⟨items, rfl, (Option.some.inj h).symm⟩⟩
  case h_3 s n hn _ _ =>
    exact ⟨_, _, n, .inr ⟨rfl, rfl⟩, hn, .inl ⟨s, rfl, (Option.some.inj h).symm⟩⟩
  case h_4 items n hn _ _ =>
    exact ⟨_, _, n, .inr ⟨rfl, rfl⟩, hn, .inr ⟨items, rfl, (Option.some.inj h).symm⟩⟩
  case h_5 => cases h

theorem yields_repeated? {left right : Value} {x : Except EvaluationFault Value}
    (h : repeated? left right = some x) :
    Yields (multiply.resultKinds left.kind right.kind) False x := by
  have hcomm : ∀ k k' : ValueKind, multiply.resultKinds k k' = multiply.resultKinds k' k := by
    intro k k'
    cases k <;> cases k' <;> rfl
  obtain ⟨thing, count, n, hsides, hcount, hthing⟩ := exists_of_repeated? h
  have hkinds : multiply.resultKinds left.kind right.kind =
      multiply.resultKinds thing.kind count.kind := by
    rcases hsides with ⟨rfl, rfl⟩ | ⟨rfl, rfl⟩
    · rfl
    · exact hcomm _ _
  rw [hkinds]
  rcases hthing with ⟨s, rfl, rfl⟩ | ⟨items, rfl, rfl⟩
  · have htext : multiply.resultKinds (Value.text s).kind count.kind = [.text] :=
      if_pos (isWhole_of_asInt? hcount)
    rw [htext]
    exact .map (fun _ => List.mem_singleton_self _) (by simp)
  · have hlist : multiply.resultKinds (Value.list items).kind count.kind = [.list] :=
      if_pos (isWhole_of_asInt? hcount)
    rw [hlist]
    exact .map (fun _ => List.mem_singleton_self _) (by simp)

theorem yields_multiply (left right : Value) :
    Yields (multiply.resultKinds left.kind right.kind) False (multiply.apply left right) := by
  simp only [apply]
  cases hrepeated : repeated? left right with
  | some x => exact yields_repeated? hrepeated
  | none =>
    rw [resultKinds_multiply_of_repeated?_eq_none hrepeated]
    exact yields_arithmetic _ _ _ _ _

/-- Whatever is not two maps, two texts or two lists is added as numbers are. -/
theorem yields_add (left right : Value) :
    Yields (add.resultKinds left.kind right.kind) False (add.apply left right) := by
  simp only [apply]
  split
  · exact .ok (List.mem_singleton_self _)
  · exact .ok (List.mem_singleton_self _)
  · exact .ok (List.mem_singleton_self _)
  · rename_i hmaps htexts hlists
    have hkinds : add.resultKinds left.kind right.kind = ofArithmetic left.kind right.kind := by
      cases left <;> cases right <;> first
        | rfl
        | exact (hmaps _ _ rfl rfl).elim
        | exact (htexts _ _ rfl rfl).elim
        | exact (hlists _ _ rfl rfl).elim
    rw [hkinds]
    exact yields_arithmetic _ _ _ _ _

theorem yields_bitOr (left right : Value) :
    Yields (bitOr.resultKinds left.kind right.kind) False (bitOr.apply left right) := by
  simp only [apply]
  split
  · exact .ok (List.mem_singleton_self _)
  · rename_i hmaps
    have hkinds : bitOr.resultKinds left.kind right.kind = ofBitwise left.kind right.kind := by
      cases left <;> cases right <;> first
        | rfl
        | exact (hmaps _ _ rfl rfl).elim
    rw [hkinds]
    exact yields_bitwise _ _ _ _

end BinaryOp

/-- What comes of turning an operand into something else: it does not fit and is refused, or a fault of
its own escapes, or there is a result. -/
inductive Conversion {α : Type} (fits escape : Prop) : Except EvaluationFault α → Prop
  | ok (a : α) (hfits : fits) (hescape : ¬ escape) : Conversion fits escape (.ok a)
  | refused (cause : Unsupported) (line : Int) (hfits : ¬ fits) (hescape : ¬ escape) :
      Conversion fits escape (.error (.unsupported cause line))
  | escaped (fault : EvaluationFault) (hfits : fits) (hfault : fault.Escapes) (hescape : escape) :
      Conversion fits escape (.error fault)

/-- Two operands are turned into something else, the left one first. -/
theorem Conversion.yields {α : Type} {fits fits' escape escape' : Prop}
    {x y : Except EvaluationFault α} (hx : Conversion fits escape x)
    (hy : Conversion fits' escape' y) {kinds : List ValueKind}
    (hkinds : kinds ≠ [] ↔ fits ∧ fits') {f : α → α → Except EvaluationFault Value}
    (hf : kinds ≠ [] → ¬ escape → ∀ a b, Yields kinds escape (f a b)) :
    Yields kinds escape (x >>= fun a => y >>= f a) := by
  cases hx with
  | refused cause line hfits hescape => exact .refusal hescape
  | escaped fault hfits hfault hescape =>
    refine ⟨?_, fun _ => ⟨fault, rfl, iff_of_true hfault hescape⟩⟩
    rintro _ ⟨⟩
  | ok a hfits hescape =>
    cases hy with
    | refused cause line hfits' hescape' => exact .refusal hescape
    | escaped fault hfits' hfault' hescape' => exact .error (hkinds.mpr ⟨hfits, hfits'⟩)
    | ok b hfits' hescape' => exact hf (hkinds.mpr ⟨hfits, hfits'⟩) hescape a b

namespace BinaryOp

open Value ValueKind

theorem conversion_asText (v : Value) :
    Conversion (v.kind.isArray = false) (concat.Unreadable v) v.asText := by
  cases v with
  | int n =>
    simp only [asText]
    cases htext : writeInteger? n with
    | some s => exact .ok _ rfl (by simp [Unreadable, htext])
    | none => exact .escaped _ rfl trivial htext
  | null => exact .ok _ rfl id
  | bool b => exact .ok _ rfl id
  | float x => exact .ok _ rfl id
  | text s => exact .ok _ rfl id
  | list items => exact .refused _ _ (by simp [kind, isArray]) id
  | map entries => exact .refused _ _ (by simp [kind, isArray]) id

theorem conversion_remainderOperand (v : Value) :
    Conversion (v.kind.isReducible = true) (remainder.Unreadable v) (remainderOperand v) := by
  cases v with
  | float x =>
    simp only [remainderOperand, integerPart]
    split_ifs with hnan hinf
    · exact .escaped _ rfl trivial (.inl hnan)
    · exact .escaped _ rfl trivial (.inr hinf)
    · exact .ok _ rfl fun h => h.elim hnan hinf
  | text s =>
    simp only [remainderOperand, integerOfText]
    cases hread : s.string?.bind (readInteger? 10) with
    | some n => exact .ok _ rfl (by simp [Unreadable, NoInteger, hread])
    | none => exact .escaped _ rfl trivial hread
  | bool b => exact .ok _ rfl id
  | int n => exact .ok _ rfl id
  | null => exact .refused _ _ (by simp [kind, isReducible]) id
  | list items => exact .refused _ _ (by simp [kind, isReducible]) id
  | map entries => exact .refused _ _ (by simp [kind, isReducible]) id

theorem yields_concat (left right : Value) :
    Yields (concat.resultKinds left.kind right.kind) (concat.Unreadable left)
      (concat.apply left right) := by
  refine (conversion_asText left).yields (conversion_asText right) ?_ fun hkinds _ _ _ => ?_
  · simp [resultKinds]
  · refine .ok ?_
    simp only [resultKinds] at hkinds ⊢
    split_ifs at hkinds ⊢
    · exact absurd rfl hkinds
    · exact List.mem_singleton_self _

theorem yields_remainder (left right : Value) :
    Yields (remainder.resultKinds left.kind right.kind) (remainder.Unreadable left)
      (remainder.apply left right) := by
  refine (conversion_remainderOperand left).yields (conversion_remainderOperand right) ?_
    fun hkinds hreadable m n => ?_
  · simp [resultKinds]
  · split_ifs with hzero
    · exact .refusal hreadable
    · refine .ok ?_
      simp only [resultKinds] at hkinds ⊢
      split_ifs at hkinds ⊢
      · exact List.mem_singleton_self _
      · exact absurd rfl hkinds

/-- What an operator makes of its operands, by their kinds. -/
theorem yields_apply (op : BinaryOp) (left right : Value) :
    Yields (op.resultKinds left.kind right.kind) (op.Unreadable left) (op.apply left right) := by
  cases op with
  | concat => exact yields_concat left right
  | or => exact .ok (List.mem_singleton_self _)
  | orWord => exact .ok (List.mem_singleton_self _)
  | and => exact .ok (List.mem_singleton_self _)
  | andWord => exact .ok (List.mem_singleton_self _)
  | add => exact yields_add left right
  | subtract => exact yields_arithmetic _ _ _ _ _
  | multiply => exact yields_multiply left right
  | divide => exact yields_quotient left right
  | remainder => exact yields_remainder left right
  | bitOr => exact yields_bitOr left right
  | bitXor => exact yields_bitwise _ _ _ _
  | bitAnd => exact yields_bitwise _ _ _ _
  | shiftLeft =>
    simp only [apply]
    exact yields_shifted _ _ _ _
  | shiftRight =>
    simp only [apply]
    exact yields_shifted _ _ _ _

/-! ## Joined operands -/

theorem exists_of_copies {α : Type} {count : Int} {items result : List α}
    (h : copies count items = .ok result) : ∃ n, result = (List.replicate n items).flatten := by
  unfold copies at h
  split_ifs at h
  · cases h
    exact ⟨0, rfl⟩
  · cases h
    exact ⟨_, rfl⟩

theorem joinOf_of_copies {count : Int} {items result : List Value} {operands : List Value}
    (h : copies count items = .ok result) (hmem : .list items ∈ operands) :
    JoinOf operands (.list result) := by
  obtain ⟨n, rfl⟩ := exists_of_copies h
  refine ⟨List.replicate n items, fun p hp => ?_, rfl⟩
  rwa [List.eq_of_mem_replicate hp]

theorem joinOf_of_textCopies {count : Int} {s result : CodeText} {operands : List Value}
    (h : textCopies count s = .ok result) (hmem : .text s ∈ operands) :
    JoinOf operands (.text result) := by
  unfold textCopies at h
  split_ifs at h
  obtain ⟨points, hpoints, rfl⟩ := exists_ok_of_map h
  obtain ⟨n, rfl⟩ := exists_of_copies hpoints
  refine ⟨List.replicate n s, fun p hp => ?_, by rw [List.map_replicate]⟩
  rwa [List.eq_of_mem_replicate hp]

theorem joins_multiply_of_repeated?_eq_none {left right : Value} (h : repeated? left right = none) :
    multiply.Joins left.kind right.kind = false := by
  cases left <;> cases right <;> first | rfl | cases h

theorem joinOf_of_joins {op : BinaryOp} {left right v : Value}
    (hjoins : op.Joins left.kind right.kind = true) (h : op.apply left right = .ok v) :
    JoinOf [left, right] v := by
  cases op with
  | add =>
    cases left <;> cases right <;> cases hjoins
    case text.text.refl a b =>
      cases h
      exact ⟨[a, b], by simp, by simp⟩
    case list.list.refl a b =>
      cases h
      exact ⟨[a, b], by simp, by simp⟩
  | multiply =>
    cases hrepeated : repeated? left right with
    | none => simp [joins_multiply_of_repeated?_eq_none hrepeated] at hjoins
    | some x =>
      simp only [apply, hrepeated, Option.getD_some] at h
      obtain ⟨thing, count, n, hsides, -, hthing⟩ := exists_of_repeated? hrepeated
      have hmem : thing ∈ [left, right] := by
        rcases hsides with ⟨rfl, rfl⟩ | ⟨rfl, rfl⟩ <;> simp
      rcases hthing with ⟨s, rfl, rfl⟩ | ⟨items, rfl, rfl⟩
      · obtain ⟨t, ht, rfl⟩ := exists_ok_of_map h
        exact joinOf_of_textCopies ht hmem
      · obtain ⟨result, hresult, rfl⟩ := exists_ok_of_map h
        exact joinOf_of_copies hresult hmem
  | _ => cases hjoins

theorem kind_of_joinOf {operands : List Value} {v : Value} (h : JoinOf operands v) :
    v.kind = .text ∨ v.kind = .list := by
  cases v with
  | text s => exact .inl rfl
  | list items => exact .inr rfl
  | _ => exact h.elim

/-! ## Kinds of results -/

/-- The kinds of the results of an operator, for all operands. A result is of the kind that the operator
is made for unless the operands stray, and arithmetic joins or repeats operands just where two texts or
two lists are added or a text or a list is multiplied by an integer. Where the kinds of the operands do
not fit, the operator refuses them, or cannot even read the left one. No kind of result is listed that
does not occur. -/
theorem apply_kinds (op : BinaryOp) (left right : Value) :
    (∀ v, op.apply left right = .ok v →
      v.kind ∈ op.resultKinds left.kind right.kind ∧
        (op.Keeps left.kind right.kind v.kind = true ↔ op.Strays left.kind right.kind = false) ∧
        (op.isArithmetic = true →
          (JoinOf [left, right] v ↔ op.Joins left.kind right.kind = true))) ∧
      (op.resultKinds left.kind right.kind = [] →
        ∃ fault, op.apply left right = .error fault ∧ (fault.Escapes ↔ op.Unreadable left)) ∧
      ∀ k ∈ op.resultKinds left.kind right.kind,
        ∃ l r v, l.kind = left.kind ∧ r.kind = right.kind ∧ op.apply l r = .ok v ∧ v.kind = k := by
  have hyields := yields_apply op left right
  refine ⟨fun v hv => ?_, hyields.refused, fun k hk => exists_result hk⟩
  have hkind := hyields.kind_mem v hv
  refine ⟨hkind, keeps_iff_of_mem hkind, fun hop => ⟨fun hjoin => ?_, fun hjoins => ?_⟩⟩
  · exact joins_of_mem hop hkind (kind_of_joinOf hjoin)
  · exact joinOf_of_joins hjoins hv

/-- A product of a text and an integer is no number, but copies of the text. -/
theorem apply_kinds_repeatedText :
    multiply.apply (.text "ab") (.int 3) = .ok (.text "ababab") ∧
      multiply.Keeps .text .int .text = false ∧ JoinOf [.text "ab", .int 3] (.text "ababab") := by
  have hresult : multiply.apply (.text "ab") (.int 3) = .ok (.text "ababab") := rfl
  obtain ⟨-, hkeeps, hjoins⟩ := (apply_kinds multiply (.text "ab") (.int 3)).1 _ hresult
  have hstrays : multiply.Keeps .text .int .text = false :=
    Bool.eq_false_iff.mpr fun h => Bool.noConfusion (hkeeps.mp h)
  exact ⟨hresult, hstrays, (hjoins rfl).mpr rfl⟩

end BinaryOp
end Reflection
