import Mathlib
import Reflection.Proofs.Constant.Operation
import Reflection.Proofs.Table

/-!
# Sums of arrays

An array is a list, whose items stand under the integers from zero on, or a map. The union of two
arrays has the entries of the first one in their order and then the entries of the second one under
other keys. The sum of two maps finds what their union finds, but the keys of the second map come
first; the sum of two lists has the items of both; and a list and a map have no sum. So the sum is the
union just where the keys of one map go on where those of the other one end, or one list is empty.

## Main definitions

* `Table.union`: the union of two tables.
* `Value.entries?`: the entries of an array.
* `Value.JoinsWith`: the sum of two arrays is their union.
* `Value.SumIs`: what the sum of two arrays is.

## Main statements

* `Table.insertAll_eq_union_iff`: when the entries of a table, written to another one, make the union.
* `distinctKeys_of_evaluate`: evaluation gives no array that has a key twice.
* `evaluate_sum`: the sum of two arrays.
-/
namespace Reflection

open Text

/-! ## Unions of tables -/

/-- Written in either order, two lists are the same just where one of them begins the other one. -/
theorem append_filter_comm_iff {α : Type} [DecidableEq α] {xs ys : List α} (hxs : xs.Nodup)
    (hys : ys.Nodup) :
    ys ++ xs.filter (· ∉ ys) = xs ++ ys.filter (· ∉ xs) ↔ xs <+: ys ∨ ys <+: xs := by
  have hextends {xs rest : List α} (h : (xs ++ rest).Nodup) :
      (xs ++ rest) ++ xs.filter (· ∉ xs ++ rest) = xs ++ (xs ++ rest).filter (· ∉ xs) := by
    have hold : xs.filter (· ∉ xs ++ rest) = [] := List.filter_eq_nil_iff.mpr (by simp +contextual)
    have hsame : xs.filter (· ∉ xs) = [] := List.filter_eq_nil_iff.mpr (by simp)
    have hnew : rest.filter (· ∉ xs) = rest :=
      List.filter_eq_self.mpr (by simpa using fun x hx hold => List.disjoint_of_nodup_append h hold hx)
    rw [hold, List.filter_append, hsame, hnew, List.append_nil, List.nil_append]
  constructor
  · intro h
    have hpre : ys <+: xs ++ ys.filter (· ∉ xs) := ⟨_, h⟩
    exact List.prefix_or_prefix_of_prefix (List.prefix_append ..) hpre
  · rintro (⟨rest, rfl⟩ | ⟨rest, rfl⟩)
    · exact hextends hys
    · exact (hextends hxs).symm

namespace Table

variable {κ α : Type} [DecidableEq κ]

/-- The entries of a table, followed by those of another one under keys that the first one lacks. -/
def union (t t' : Table κ α) : Table κ α := t ++ t'.filter fun e => e.1 ∉ keys t

theorem find?_filter (t : Table κ α) (p : κ → Bool) (key : κ) :
    find? (t.filter fun e => p e.1) key = if p key then find? t key else none := by
  induction t with
  | nil => simp [find?]
  | cons e rest ih =>
    obtain ⟨k, v⟩ := e
    by_cases hk : p k = true
    · rw [List.filter_cons_of_pos (by simpa using hk)]
      by_cases h : k = key
      · simp [find?, ← h, hk]
      · simpa [find?, h] using ih
    · rw [List.filter_cons_of_neg (by simpa using hk), ih]
      by_cases h : k = key
      · simp [← h, hk]
      · simp [find?, h]

/-- A key of the first table keeps its value. -/
theorem find?_union (t t' : Table κ α) (key : κ) :
    find? (union t t') key = (find? t key).or (find? t' key) := by
  rw [union, find?_append, find?_filter t' (fun k => decide (k ∉ keys t)) key]
  cases hkey : find? t key with
  | some v => rfl
  | none =>
    have hnotin := (find?_eq_none_iff t key).mp hkey
    simp [hnotin]

theorem keys_union (t t' : Table κ α) :
    keys (union t t') = keys t ++ (keys t').filter (· ∉ keys t) := by
  rw [union, keys, keys, keys, List.map_append, List.filter_map]
  rfl

/-- A union is as long as both tables only if they have no key in common. -/
theorem length_union_iff (t t' : Table κ α) :
    (union t t').length = t.length + t'.length ↔ ∀ e ∈ t', e.1 ∉ keys t := by
  rw [union, List.length_append, Nat.add_left_cancel_iff, List.length_filter_eq_length_iff]
  simp

/-- The entries of a table, written to another one, make the union of the two just where the keys of
one table begin those of the other one. -/
theorem insertAll_eq_union_iff {t t' : Table κ α} (h : (keys t).Nodup) (h' : (keys t').Nodup) :
    insertAll t' t = union t t' ↔ keys t <+: keys t' ∨ keys t' <+: keys t := by
  rw [← append_filter_comm_iff h h', ← keys_insertAll t' h, ← keys_union]
  constructor
  · exact congrArg keys
  · intro hkeys
    refine eq_of_keys_of_find? (nodup_keys_insertAll h' t) hkeys fun key => ?_
    rw [find?_insertAll, find?_reverse h, find?_union]

end Table

/-! ## Arrays -/

namespace Value

/-- The entries of an array; the items of a list stand under the integers from zero on. -/
def entries? : Value → Option (Table Key Value)
  | list items => some (items.mapIdx fun i v => (.int i, v))
  | map entries => some entries
  | _ => none

/-- An array has no key twice. The keys of a list are distinct by themselves. -/
def DistinctKeys : Value → Prop
  | map entries => (Table.keys entries).Nodup
  | _ => True

/-- The sum of two arrays is their union: the keys of one map begin those of the other one, or one of
two lists is empty. -/
def JoinsWith : Value → Value → Prop
  | map x, map y => Table.keys x <+: Table.keys y ∨ Table.keys y <+: Table.keys x
  | list xs, list ys => xs = [] ∨ ys = []
  | _, _ => False

/-- What the sum of two arrays is. -/
def SumIs (outcome : Except EvaluationFault Value) : Value → Value → Prop
  | map x, map y => ∃ z, outcome = .ok (.map z) ∧
      Table.keys z = Table.keys y ++ (Table.keys x).filter (· ∉ Table.keys y) ∧
      ∀ key, Table.find? z key = Table.find? (Table.union x y) key
  | list xs, list ys => outcome = .ok (.list (xs ++ ys))
  | _, _ => outcome = .error (.unsupported (.cannotApply "+") (-1))

/-! ## Sums -/

theorem sumIs_add {a b : Value} {x y : Table Key Value} (ha : a.DistinctKeys)
    (hx : a.entries? = some x) (hy : b.entries? = some y) : SumIs (BinaryOp.add.apply a b) a b := by
  cases a with
  | map x =>
    cases b with
    | map y =>
      refine ⟨_, rfl, Table.keys_insertAll y ha, fun key => ?_⟩
      rw [Table.find?_insertAll, Table.find?_reverse ha, Table.find?_union]
    | list ys => rfl
    | _ => cases hy
  | list xs =>
    cases b with
    | map y => rfl
    | list ys => rfl
    | _ => cases hy
  | _ => cases hx

theorem exists_sum_eq_union_iff {a b : Value} {x y : Table Key Value} (ha : a.DistinctKeys)
    (hb : b.DistinctKeys) (hx : a.entries? = some x) (hy : b.entries? = some y) :
    (∃ sum, BinaryOp.add.apply a b = .ok sum ∧ sum.entries? = some (Table.union x y)) ↔
      a.JoinsWith b := by
  cases a with
  | map x' =>
    cases hx
    cases b with
    | map y' =>
      cases hy
      rw [JoinsWith, ← Table.insertAll_eq_union_iff ha hb]
      constructor
      · rintro ⟨sum, hsum, hentries⟩
        cases hsum
        exact Option.some.inj hentries
      · exact fun h => ⟨_, rfl, congrArg some h⟩
    | list ys => exact ⟨fun ⟨_, hsum, _⟩ => (by cases hsum), False.elim⟩
    | _ => cases hy
  | list xs =>
    cases hx
    cases b with
    | map y' => exact ⟨fun ⟨_, hsum, _⟩ => (by cases hsum), False.elim⟩
    | list ys =>
      cases hy
      constructor
      · rintro ⟨sum, hsum, hentries⟩
        cases hsum
        have hlength := congrArg List.length (Option.some.inj hentries)
        rw [List.length_mapIdx, List.length_append] at hlength
        have hnew := (Table.length_union_iff _ _).mp (hlength.symm.trans (by simp))
        -- Two lists with items have the key zero in common.
        by_contra hboth
        obtain ⟨hxs, hys⟩ := not_or.mp hboth
        obtain ⟨v, xs, rfl⟩ := List.exists_cons_of_ne_nil hxs
        obtain ⟨w, ys, rfl⟩ := List.exists_cons_of_ne_nil hys
        exact hnew (.int 0, w) (by simp) (by simp [Table.keys])
      · rintro (rfl | rfl)
        · exact ⟨_, rfl, by simp [entries?, Table.union, Table.keys]⟩
        · exact ⟨_, rfl, by simp [entries?, Table.union]⟩
    | _ => cases hy
  | _ => cases hx

end Value

/-! ## Evaluation -/

/-- A computation gives no array that has a key twice. -/
def GivesDistinct (x : Except EvaluationFault Value) : Prop := ∀ v, x = .ok v → v.DistinctKeys

namespace GivesDistinct

theorem ok {v : Value} (h : v.DistinctKeys) : GivesDistinct (.ok v) := by
  rintro _ ⟨⟩
  exact h

theorem error (fault : EvaluationFault) : GivesDistinct (.error fault) := by
  rintro _ ⟨⟩

theorem bind {α : Type} {x : Except EvaluationFault α} {f : α → Except EvaluationFault Value}
    (h : ∀ a, x = .ok a → GivesDistinct (f a)) : GivesDistinct (x >>= f) := by
  cases x with
  | ok a => exact h a rfl
  | error fault => exact error fault

theorem map {α : Type} {x : Except EvaluationFault α} {f : α → Value}
    (h : ∀ a, x = .ok a → (f a).DistinctKeys) : GivesDistinct (x.map f) := by
  cases x with
  | ok a => exact ok (h a rfl)
  | error fault => exact error fault

end GivesDistinct

namespace Value

theorem nodup_keys_of_entriesFrom {next : Int} {entries result : Table Key Value}
    {elements : List (Option Value × Value)} (h : (Table.keys entries).Nodup)
    (hresult : entriesFrom next entries elements = .ok result) : (Table.keys result).Nodup := by
  induction elements generalizing next entries with
  | nil =>
    cases hresult
    exact h
  | cons element rest ih =>
    obtain ⟨key, value⟩ := element
    cases hkey : (key.getD null).asKey next with
    | error fault => simp [entriesFrom, hkey, bind, Except.bind] at hresult
    | ok key =>
      simp only [entriesFrom, hkey, bind, Except.bind] at hresult
      exact ih (Table.nodup_keys_insert h key value) hresult

theorem givesDistinct_arrayOf (elements : List (Option Value × Value)) :
    GivesDistinct (arrayOf elements) := by
  unfold arrayOf mapOf
  split_ifs
  · exact .map fun _ => nodup_keys_of_entriesFrom List.nodup_nil
  · exact .ok trivial

end Value

namespace BinaryOp

open Value

theorem givesDistinct_arithmetic (op : BinaryOp) (exact : Int → Int → Int)
    (rounded : Float → Float → Float) (left right : Value) :
    GivesDistinct (op.arithmetic exact rounded left right) := by
  unfold arithmetic
  split
  · exact .ok trivial
  · exact .bind fun _ _ => .bind fun _ _ => .ok trivial
  · exact .error _

theorem givesDistinct_quotient (left right : Value) : GivesDistinct (quotient left right) := by
  unfold quotient
  split
  · split_ifs
    · exact .error _
    · exact .ok trivial
    · split
      · exact .ok trivial
      · exact .error _
  · refine .bind fun _ _ => .bind fun _ _ => ?_
    split_ifs
    · exact .error _
    · exact .ok trivial
  · exact .error _

theorem givesDistinct_bitwise (op : BinaryOp) (f : Int → Int → Int) (left right : Value) :
    GivesDistinct (op.bitwise f left right) := by
  unfold bitwise
  split
  · exact .ok trivial
  · split
    · exact .ok trivial
    · exact .error _

theorem givesDistinct_shifted (op : BinaryOp) (f : Int → Nat → Except EvaluationFault Int)
    (left right : Value) : GivesDistinct (op.shifted f left right) := by
  unfold shifted
  split
  · split_ifs
    · exact .error _
    · exact .map fun _ _ => trivial
  · exact .error _

theorem givesDistinct_of_repeated? {left right : Value} {x : Except EvaluationFault Value}
    (h : repeated? left right = some x) : GivesDistinct x := by
  unfold repeated? at h
  split at h <;> first | (cases h; exact .map fun _ _ => trivial) | cases h

/-- Only a sum and a bitwise or of two maps are maps, and these have the keys of both. -/
theorem givesDistinct_apply (op : BinaryOp) {left right : Value} (hleft : left.DistinctKeys)
    (hright : right.DistinctKeys) : GivesDistinct (op.apply left right) := by
  cases op with
  | concat => exact .bind fun _ _ => .bind fun _ _ => .ok trivial
  | or => exact .ok trivial
  | orWord => exact .ok trivial
  | and => exact .ok trivial
  | andWord => exact .ok trivial
  | add =>
    simp only [apply]
    split
    · exact .ok (Table.nodup_keys_insertAll hright _)
    · exact .ok trivial
    · exact .ok trivial
    · exact givesDistinct_arithmetic _ _ _ _ _
  | subtract => exact givesDistinct_arithmetic _ _ _ _ _
  | multiply =>
    simp only [apply]
    cases hrepeated : repeated? left right with
    | some x => exact givesDistinct_of_repeated? hrepeated
    | none => exact givesDistinct_arithmetic _ _ _ _ _
  | divide => exact givesDistinct_quotient left right
  | remainder =>
    refine .bind fun _ _ => .bind fun _ _ => ?_
    split_ifs
    · exact .error _
    · exact .ok trivial
  | bitOr =>
    simp only [apply]
    split
    · exact .ok (Table.nodup_keys_insertAll hleft _)
    · exact givesDistinct_bitwise _ _ _ _
  | bitXor => exact givesDistinct_bitwise _ _ _ _
  | bitAnd => exact givesDistinct_bitwise _ _ _ _
  | shiftLeft =>
    simp only [apply]
    exact givesDistinct_shifted _ _ _ _
  | shiftRight =>
    simp only [apply]
    exact givesDistinct_shifted _ _ _ _

end BinaryOp

theorem UnaryOp.givesDistinct_apply (op : UnaryOp) (line : Int) (operand : Value) :
    GivesDistinct (op.apply line operand) := by
  unfold UnaryOp.apply
  dsimp only
  split <;> first | exact .ok trivial | exact .error _

theorem givesDistinct_parseNumber (text : String) : GivesDistinct (parseNumber text) := by
  unfold parseNumber
  split
  · rename_i v hv
    refine .ok ?_
    unfold readLiteral? at hv
    dsimp only at hv
    split at hv
    case h_4 =>
      split_ifs at hv <;> (obtain ⟨_, -, rfl⟩ := Option.map_eq_some_iff.mp hv; trivial)
    all_goals
      obtain ⟨_, -, rfl⟩ := Option.map_eq_some_iff.mp hv
      trivial
  · exact .error _

theorem givesDistinct_of_literal? {t : Token} {e : Expression} (h : t.literal? = some e)
    (lookup : ConstantLookup) : GivesDistinct (e.value lookup) := by
  unfold Token.literal? at h
  split_ifs at h <;> cases h
  · exact givesDistinct_parseNumber _
  · exact .map fun _ _ => trivial
  · exact .ok trivial
  · exact .ok trivial
  · exact .ok trivial

/-- What a phrase gives has no key twice. -/
def Phrase.GivesDistinct (lookup : ConstantLookup) : Phrase → Prop
  | .ranked _ e => Reflection.GivesDistinct (e.value lookup)
  | _ => True

section

variable {lookup : ConstantLookup}
  (hlookup : ∀ name v, lookup name = some v → v.DistinctKeys)

include hlookup

theorem givesDistinct_reference (name : String) (line : Int) :
    GivesDistinct ((Expression.reference name line).value lookup) := by
  unfold Expression.value
  split
  · rename_i v hv
    exact .ok (hlookup name v hv)
  · exact .error _

/-- So it is for every phrase that tokens spell, by the phrases that it consists of. -/
theorem Spells.givesDistinct {p : Phrase} {ts : List Token} {named : Bool} (h : Spells p ts named) :
    p.GivesDistinct lookup := by
  induction h with
  | literal hunary he => exact givesDistinct_of_literal? he lookup
  | reference hbegins hnames => exact givesDistinct_reference hlookup _ _
  | member hbegins hnames hself hcolons hfollows => exact givesDistinct_reference hlookup _ _
  | group hliteral ho he hc hfollows ih => exact ih
  | list hliteral ho hels hc hfollows ih =>
    exact .bind fun values _ => Value.givesDistinct_arrayOf values
  | array hliteral ha ho hels hc hfollows ih =>
    exact .bind fun values _ => Value.givesDistinct_arrayOf values
  | unary hop he ih => exact .bind fun v _ => UnaryOp.givesDistinct_apply _ _ v
  | binary hop hrank hleft hfollows hright ihleft ihright =>
    exact .bind fun l hl => .bind fun r hr =>
      BinaryOp.givesDistinct_apply _ (ihleft l hl) (ihright r hr)
  | looser he ih => exact ih
  | positional he ih => trivial
  | keyed hkey harrow hfollows hvalue ihkey ihvalue => trivial
  | empty closing => trivial
  | last hstart hel ih => trivial
  | more hstart hel hcomma hfollows hels ihel ihels => trivial

theorem distinctKeys_of_evaluate {room : Nat} {ts : List Token} {v : Value}
    (h : evaluate lookup room ts = .ok v) : v.DistinctKeys := by
  obtain ⟨e, ⟨named, hspells⟩, -, hvalue⟩ := exists_spelledBy_of_evaluate h
  exact hspells.givesDistinct hlookup v hvalue

end

/-! ## Sums in source -/

/-- A sum of two expressions in parentheses evaluates to what adding their values gives. -/
theorem evaluate_parenthesized {lookup : ConstantLookup} {room : Nat} {ts ts' us us' : List Token}
    {plus : Token} {a b : Value} (h : Parenthesized ts us) (h' : Parenthesized ts' us')
    (hplus : plus.isPunct "+" = true) (ha : evaluate lookup room ts = .ok a)
    (hb : evaluate lookup room ts' = .ok b) :
    evaluate lookup (room + 1) (us ++ plus :: us') = BinaryOp.add.apply a b := by
  have hleft := (h.computesTo ha).loosen (Nat.zero_le BinaryOp.add.rank)
  have hright := (h'.computesTo hb).loosen (Nat.zero_le (BinaryOp.add.rank - 1))
  exact (ComputesTo.binary _ hplus hleft hright).evaluate_eq (by decide)

/-- The sum of two arrays that evaluation gives. It is the union of the arrays just where they join;
otherwise it has the entries of the union in another order if both are maps, all items of both if both
are lists, and does not exist if one is a list and the other one a map. -/
theorem evaluate_sum {lookup : ConstantLookup}
    (hlookup : ∀ name v, lookup name = some v → v.DistinctKeys) {room : Nat}
    {ts ts' us us' : List Token} {plus : Token} (h : Parenthesized ts us) (h' : Parenthesized ts' us')
    (hplus : plus.isPunct "+" = true) {a b : Value} (ha : evaluate lookup room ts = .ok a)
    (hb : evaluate lookup room ts' = .ok b) {x y : Table Key Value} (hx : a.entries? = some x)
    (hy : b.entries? = some y) :
    ((∃ sum, evaluate lookup (room + 1) (us ++ plus :: us') = .ok sum ∧
        sum.entries? = some (Table.union x y)) ↔ a.JoinsWith b) ∧
      Value.SumIs (evaluate lookup (room + 1) (us ++ plus :: us')) a b := by
  have hdistinct := distinctKeys_of_evaluate hlookup ha
  have hdistinct' := distinctKeys_of_evaluate hlookup hb
  rw [evaluate_parenthesized h h' hplus ha hb]
  exact ⟨Value.exists_sum_eq_union_iff hdistinct hdistinct' hx hy, Value.sumIs_add hdistinct hx hy⟩

/-- The tokens of a sum of two lists of numbers in parentheses. -/
def sumTokens (numbers numbers' : List String) : List Token :=
  sign "(" :: numberTokens numbers ++ [sign ")"] ++ sign "+" ::
    (sign "(" :: numberTokens numbers' ++ [sign ")"])
where
  /-- A sign by its text. -/
  sign (text : String) : Token := ⟨.punctuation, text, 1, 0⟩
  /-- The tokens of a list of numbers. -/
  numberTokens (numbers : List String) : List Token :=
    sign "[" :: (numbers.map (⟨.numberLiteral, ·, 1, 0⟩)).intersperse (sign ",") ++ [sign "]"]

/-- The sum of `[1, 2]` and `[3, 4, 5]` has five items, but their union has three. -/
theorem evaluate_sum_overlappingLists :
    evaluate (fun _ => none) 2 (sumTokens ["1", "2"] ["3", "4", "5"]) =
        .ok (.list [.int 1, .int 2, .int 3, .int 4, .int 5]) ∧
      ¬ ∃ sum, evaluate (fun _ => none) 2 (sumTokens ["1", "2"] ["3", "4", "5"]) = .ok sum ∧
        sum.entries? = some [(.int 0, .int 1), (.int 1, .int 2), (.int 2, .int 5)] := by
  have ha : evaluate (fun _ => none) 1 (sumTokens.numberTokens ["1", "2"]) =
      .ok (.list [.int 1, .int 2]) := by
    cbv
  have hb : evaluate (fun _ => none) 1 (sumTokens.numberTokens ["3", "4", "5"]) =
      .ok (.list [.int 3, .int 4, .int 5]) := by
    cbv
  have hleft : Parenthesized (sumTokens.numberTokens ["1", "2"]) _ :=
    ⟨sumTokens.sign "(", sumTokens.sign ")", rfl, rfl, rfl⟩
  have hright : Parenthesized (sumTokens.numberTokens ["3", "4", "5"]) _ :=
    ⟨sumTokens.sign "(", sumTokens.sign ")", rfl, rfl, rfl⟩
  have hplus : (sumTokens.sign "+").isPunct "+" = true := rfl
  obtain ⟨hunion, hsum⟩ := evaluate_sum (by simp) hleft hright hplus ha hb rfl rfl
  exact ⟨hsum, fun h => by simpa [Value.JoinsWith] using hunion.mp h⟩

end Reflection
