import Mathlib.Data.List.Basic
import Mathlib.Data.List.Induction
import Mathlib.Tactic.IntervalCases
import Reflection.Number.IntegerText
import Reflection.Proofs.Text.Line

/-!
# Reading integers from runs of digits

The decimal form of an integer has no leading zero, at most one sign, and no sign before zero. Reading
accepts more: leading zeros and the digits of all decimal scripts. It fails on a run of digits with more
than one sign, with a digit that no decimal script has, or with more digits than are allowed.

## Main definitions

* `NaturalForm`, `DecimalForm`: the decimal forms of natural numbers and of integers.
* `UnreadableDigits`: signs and digits that denote no integer.

## Main statements

* `decimalForm_iff`: an integer has one decimal form, the text that is written for it.
* `readInteger?_of_decimalForm`: reading undoes writing.
* `readInteger?_eq_none_iff`: the signs and digits that cannot be read.
-/
namespace Reflection.Number

open Reflection.Text

/-! ## Decimal forms -/

/-- Digits without a leading zero. -/
structure NaturalForm (cs : List Char) : Prop where
  nonempty : cs ≠ []
  digits : ∀ c ∈ cs, c.isDigit = true
  lead : cs.head? = some '0' → cs = ['0']

/-- The decimal form of an integer. Zero has no sign. -/
inductive DecimalForm : List Char → Int → Prop
  | natural {cs : List Char} (h : NaturalForm cs) : DecimalForm cs (Nat.ofDigitChars 10 cs 0)
  | negative {cs : List Char} (h : NaturalForm cs) (hzero : cs ≠ ['0']) :
      DecimalForm ('-' :: cs) (-(Nat.ofDigitChars 10 cs 0 : Int))

theorem digitChar_of_isDigit {c : Char} (h : c.isDigit = true) :
    c.toNat - '0'.toNat < 10 ∧ Nat.digitChar (c.toNat - '0'.toNat) = c := by
  have hle : 48 ≤ c.toNat ∧ c.toNat ≤ 57 := by
    simpa [Char.isDigit, UInt32.le_iff_toNat_le] using h
  have hzero : '0'.toNat = 48 := rfl
  have hlt : c.toNat - '0'.toNat < 10 := by omega
  refine ⟨hlt, Char.toNat_inj.mp ?_⟩
  rw [Nat.toNat_digitChar_of_lt_ten hlt]
  omega

/-- Digits without a leading zero are written for the number that they denote. -/
theorem NaturalForm.toDigits_ofDigitChars {cs : List Char} (h : NaturalForm cs) :
    Nat.toDigits 10 (Nat.ofDigitChars 10 cs 0) = cs := by
  induction cs using List.reverseRecOn with
  | nil => exact absurd rfl h.nonempty
  | append_singleton cs d ih =>
    obtain ⟨hlt, hd⟩ := digitChar_of_isDigit (h.digits d (by simp))
    have hvalue : Nat.ofDigitChars 10 (cs ++ [d]) 0 =
        10 * Nat.ofDigitChars 10 cs 0 + (d.toNat - '0'.toNat) := by
      rw [Nat.ofDigitChars_append, Nat.ofDigitChars_cons, Nat.ofDigitChars_nil]
    rw [hvalue]
    by_cases hnil : cs = []
    · subst hnil
      rw [Nat.ofDigitChars_nil, Nat.mul_zero, Nat.zero_add, Nat.toDigits_of_lt_base hlt, hd]
      rfl
    · -- The front has no leading zero either, and it is not zero.
      have hlead : cs.head? ≠ some '0' := fun hzero => by
        have hall := h.lead (by rwa [List.head?_append_of_ne_nil _ hnil])
        cases cs with
        | nil => exact hnil rfl
        | cons c cs => simp at hall
      have hfront := ih ⟨hnil, fun c hc => h.digits c (List.mem_append_left _ hc),
        fun hzero => absurd hzero hlead⟩
      have hpos : 0 < Nat.ofDigitChars 10 cs 0 := by
        refine Nat.pos_of_ne_zero fun hzero => hlead ?_
        rw [← hfront, hzero]
        rfl
      rw [← Nat.toDigits_append_toDigits (by decide) hpos hlt, hfront,
        Nat.toDigits_of_lt_base hlt, hd]

theorem head?_toDigits {n : Nat} (h : 0 < n) : (Nat.toDigits 10 n).head? ≠ some '0' := by
  induction n using Nat.strong_induction_on with
  | _ n ih =>
    by_cases hlt : n < 10
    · rw [Nat.toDigits_of_lt_base hlt]
      interval_cases n <;> decide
    · rw [Nat.toDigits_of_base_le (by decide) (by omega),
        List.head?_append_of_ne_nil _ Nat.toDigits_ne_nil]
      exact ih (n / 10) (by omega) (by omega)

theorem naturalForm_toDigits (n : Nat) : NaturalForm (Nat.toDigits 10 n) where
  nonempty := Nat.toDigits_ne_nil
  digits _ hc := Nat.isDigit_of_mem_toDigits (by decide) (by decide) hc
  lead hzero := by
    rcases Nat.eq_zero_or_pos n with rfl | hpos
    · rfl
    · exact absurd hzero (head?_toDigits hpos)

theorem toDigits_eq_zero_iff (n : Nat) : Nat.toDigits 10 n = ['0'] ↔ n = 0 := by
  refine ⟨fun h => ?_, fun h => by rw [h]; rfl⟩
  by_contra hne
  exact head?_toDigits (Nat.pos_of_ne_zero hne) (by rw [h]; rfl)

theorem toList_decimalInt_negSucc (m : Nat) :
    (decimalInt (.negSucc m)).toList = '-' :: Nat.toDigits 10 (m + 1) := by
  simp only [decimalInt, String.toList_append, decimal, String.toList_ofList]
  rfl

/-- An integer has one decimal form, which is the text that is written for it. -/
theorem decimalForm_iff {cs : List Char} {n : Int} : DecimalForm cs n ↔ (decimalInt n).toList = cs := by
  constructor
  · rintro (h | ⟨h, hzero⟩)
    · rw [← Int.ofNat_eq_natCast, decimalInt, decimal, String.toList_ofList, h.toDigits_ofDigitChars]
    · cases hvalue : Nat.ofDigitChars 10 _ 0 with
      | zero =>
        have hdigits := h.toDigits_ofDigitChars
        rw [hvalue] at hdigits
        exact absurd hdigits.symm hzero
      | succ m =>
        have hdigits := h.toDigits_ofDigitChars
        rw [hvalue] at hdigits
        have hneg : -((m + 1 : Nat) : Int) = Int.negSucc m := rfl
        rw [hneg, toList_decimalInt_negSucc, hdigits]
  · rintro rfl
    cases n with
    | ofNat m =>
      have h := DecimalForm.natural (naturalForm_toDigits m)
      rw [Nat.ofDigitChars_ten_toDigits] at h
      rwa [decimalInt, decimal, String.toList_ofList]
    | negSucc m =>
      have h := DecimalForm.negative (naturalForm_toDigits (m + 1))
        (fun hzero => absurd ((toDigits_eq_zero_iff _).mp hzero) (by omega))
      rw [Nat.ofDigitChars_ten_toDigits] at h
      rwa [toList_decimalInt_negSucc]

/-! ## Digits -/

theorem has_iff {ranges : CodeRanges} {c : Char} :
    ranges.has c = true ↔ ∃ r ∈ ranges, r.1 ≤ c.toNat ∧ c.toNat ≤ r.2 := by
  simp [CodeRanges.has]

theorem exists_decimalZero {c : Char} {d : Nat} (h : decimalValue? c = some d) :
    ∃ nought ∈ decimalZeros, nought ≤ c.toNat ∧ c.toNat ≤ nought + 9 ∧ d = c.toNat - nought := by
  obtain ⟨nought, hfind, rfl⟩ := Option.map_eq_some_iff.mp h
  have hspan := List.find?_some hfind
  simp only [Bool.and_eq_true, decide_eq_true_eq] at hspan
  exact ⟨nought, List.mem_of_find?_eq_some hfind, hspan.1, hspan.2, rfl⟩

/-- No digit is a space. -/
theorem isSpace_eq_false_of_isDigit {c : Char} (h : isDigit c = true) : isSpace c = false := by
  rw [Bool.eq_false_iff]
  intro hspace
  obtain ⟨r, hr, hlow, hhigh⟩ := has_iff.mp hspace
  rcases Bool.or_eq_true_iff.mp h with hdecimal | hother
  · have hapart : ∀ r ∈ spaceRanges, ∀ nought ∈ decimalZeros, nought + 9 < r.1 ∨ r.2 < nought := by
      decide
    obtain ⟨d, hd⟩ := Option.isSome_iff_exists.mp hdecimal
    obtain ⟨nought, hmem, hlow', hhigh', -⟩ := exists_decimalZero hd
    have := hapart r hr nought hmem
    omega
  · have hapart : ∀ r ∈ spaceRanges, ∀ r' ∈ otherDigitRanges, r'.2 < r.1 ∨ r.2 < r'.1 := by
      decide
    obtain ⟨r', hr', hlow', hhigh'⟩ := has_iff.mp hother
    have := hapart r hr r' hr'
    omega

theorem digitValue?_digitChar {d : Nat} (h : d < 10) : digitValue? (digitChar d) = some d := by
  interval_cases d <;> rfl

/-- A decimal digit is read as the digit of ASCII with its value. -/
theorem asciiDigit_of_decimalValue? {c : Char} {d : Nat} (h : decimalValue? c = some d) :
    d < 10 ∧ asciiDigit c = digitChar d := by
  obtain ⟨nought, hmem, hlow, hhigh, rfl⟩ := exists_decimalZero h
  have hlt : c.toNat - nought < 10 := by omega
  refine ⟨hlt, ?_⟩
  by_cases hascii : c.toNat < 0x80
  · have hnought : nought = 0x30 := by
      have hzeros : ∀ nought ∈ decimalZeros, nought = 0x30 ∨ 0x80 ≤ nought := by decide
      have := hzeros nought hmem
      omega
    subst hnought
    have hzero : '0'.toNat = 0x30 := rfl
    rw [asciiDigit, if_pos hascii, digitChar, if_pos hlt, hzero, Nat.add_sub_cancel' hlow,
      Char.ofNat_toNat]
  · simp only [asciiDigit, if_neg hascii, h]

/-- Any other digit is read as it is, and has no value. -/
theorem asciiDigit_of_other {c : Char} (h : isDigit c = true) (hnone : decimalValue? c = none) :
    asciiDigit c = c ∧ digitValue? c = none := by
  have hother : otherDigitRanges.has c = true := by simpa [isDigit, hnone] using h
  have hlow : 0x80 ≤ c.toNat := by
    obtain ⟨r, hr, hlow, -⟩ := has_iff.mp hother
    have hranges : ∀ r ∈ otherDigitRanges, 0x80 ≤ r.1 := by decide
    have := hranges r hr
    omega
  have hsame : asciiDigit c = c := by
    simp only [asciiDigit, if_neg (Nat.not_lt.mpr hlow), hnone, isSpace_eq_false_of_isDigit h]
    rfl
  have hgt (top : Char) (htop : top.toNat < 0x80) : ¬ c ≤ top := by
    rw [Char.le_def, UInt32.le_iff_toNat_le]
    have : c.toNat = c.val.toNat := rfl
    have : top.toNat = top.val.toNat := rfl
    omega
  refine ⟨hsame, ?_⟩
  rw [digitValue?, if_neg fun h => hgt '9' (by decide) h.2, if_neg fun h => hgt 'z' (by decide) h.2,
    if_neg fun h => hgt 'Z' (by decide) h.2]

/-- What a digit is read as has the digit's value, if it has any. -/
theorem digitValue?_asciiDigit {c : Char} (h : isDigit c = true) :
    (digitValue? (asciiDigit c)).filter (· < 10) = decimalValue? c := by
  cases hvalue : decimalValue? c with
  | none =>
    obtain ⟨hsame, hnone⟩ := asciiDigit_of_other h hvalue
    rw [hsame, hnone, Option.filter_none]
  | some d =>
    obtain ⟨hlt, heq⟩ := asciiDigit_of_decimalValue? hvalue
    rw [heq, digitValue?_digitChar hlt]
    simp [hlt]

/-- A digit is not read as a sign or as a low line. -/
theorem asciiDigit_ne {c : Char} (h : isDigit c = true) (mark : Char) (hmark : mark ∈ ['-', '+', '_']) :
    asciiDigit c ≠ mark := by
  have hnovalue : ∀ mark ∈ ['-', '+', '_'], digitValue? mark = none ∧ isDigit mark = false := by
    simp only [List.forall_mem_cons]
    exact ⟨⟨rfl, rfl⟩, ⟨rfl, rfl⟩, ⟨rfl, rfl⟩, by simp⟩
  rintro rfl
  cases hvalue : decimalValue? c with
  | none =>
    rw [(asciiDigit_of_other h hvalue).1] at hmark
    exact absurd h (by simp [(hnovalue _ hmark).2])
  | some d =>
    obtain ⟨hlt, heq⟩ := asciiDigit_of_decimalValue? hvalue
    have hsome : digitValue? (asciiDigit c) = some d := by rw [heq, digitValue?_digitChar hlt]
    rw [(hnovalue _ hmark).1] at hsome
    cases hsome

/-! ## Reading -/

theorem mapM_eq_some_map {α β : Type} {f : α → Option β} {g : α → β} {xs : List α}
    (h : ∀ x ∈ xs, f x = some (g x)) : xs.mapM f = some (xs.map g) := by
  induction xs with
  | nil => rfl
  | cons x xs ih =>
    obtain ⟨hx, hxs⟩ := List.forall_mem_cons.mp h
    rw [List.mapM_cons, hx, ih hxs]
    rfl

theorem mapM_eq_none {α β : Type} {f : α → Option β} {xs : List α} {x : α} (hx : x ∈ xs)
    (h : f x = none) : xs.mapM f = none := by
  induction xs with
  | nil => cases hx
  | cons y xs ih =>
    rw [List.mapM_cons]
    rcases List.mem_cons.mp hx with rfl | hx
    · rw [h]
      rfl
    · rw [ih hx]
      cases f y <;> rfl

/-- Without low lines the digits are read one by one. -/
theorem readDigits?_eq_mapM {base : Nat} {cs : List Char} (h : '_' ∉ cs) (room : Nat) :
    readDigits? base room cs = cs.mapM fun c => (digitValue? c).filter (· < base) := by
  fun_induction readDigits? base room cs with
  | case1 => rfl
  | case2 => exact absurd List.mem_cons_self h
  | case3 => exact absurd List.mem_cons_self h
  | case4 => exact absurd List.mem_cons_self h
  | case5 => exact absurd List.mem_cons_self h
  | case6 room c cs _ d hd hlt ih =>
    rw [List.mapM_cons, hd, ih (List.not_mem_of_not_mem_cons h)]
    simp [Option.filter, hlt, Option.map_eq_bind]
  | case7 room c cs _ d hd hge =>
    rw [List.mapM_cons, hd]
    simp [Option.filter, hge]
  | case8 room c cs _ hd =>
    rw [List.mapM_cons, hd]
    rfl

theorem readDigits?_digits {ds : List Char} (h : ∀ c ∈ ds, isDigit c = true) (room : Nat) :
    readDigits? 10 room (ds.map asciiDigit) = ds.mapM decimalValue? := by
  have hlow : '_' ∉ ds.map asciiDigit := fun hmem => by
    obtain ⟨c, hc, hlow⟩ := List.mem_map.mp hmem
    exact asciiDigit_ne (h c hc) '_' (by simp) hlow
  rw [readDigits?_eq_mapM hlow]
  clear hlow
  induction ds with
  | nil => rfl
  | cons c ds ih =>
    obtain ⟨hc, hds⟩ := List.forall_mem_cons.mp h
    rw [List.map_cons, List.mapM_cons, List.mapM_cons, ih hds, digitValue?_asciiDigit hc]

/-- A run of digits denotes a natural number if all of them are decimal and they are not too many. -/
theorem readNatural?_digits {ds : List Char} (hne : ds ≠ []) (h : ∀ c ∈ ds, isDigit c = true) :
    readNatural? 10 (ds.map asciiDigit) =
      (ds.mapM decimalValue?).bind fun values =>
        if maxDecimalDigits < values.length then none else some (ofDigits 10 values) := by
  have hmark : dropBaseMark 10 (ds.map asciiDigit) = ds.map asciiDigit := by
    unfold dropBaseMark
    split <;> rfl
  have hstart : ((ds.map asciiDigit).isEmpty || (ds.map asciiDigit).head? == some '_') = false := by
    cases ds with
    | nil => exact absurd rfl hne
    | cons c ds => simpa using asciiDigit_ne (h c List.mem_cons_self) '_' (by simp)
  simp only [readNatural?, hmark, hstart, readDigits?_digits h, true_and]
  rfl

/-- A text without such characters is not trimmed. -/
theorem trim_of_forall {p : Char → Bool} {cs : List Char} (h : ∀ c ∈ cs, p c = false) :
    trim p (String.ofList cs) = String.ofList cs := by
  refine trim_of_isTrimmed ?_
  rw [String.toList_ofList]
  exact ⟨fun c hc => h c (List.mem_of_head? hc), fun c hc => h c (List.mem_of_getLast? hc)⟩

/-- Signs and a run of digits that denote no integer: there is more than one sign, a digit is not
decimal, or the digits are too many. -/
def UnreadableDigits (signs : Nat) (ds : List Char) : Prop :=
  2 ≤ signs ∨ (∃ c ∈ ds, decimalValue? c = none) ∨ maxDecimalDigits < ds.length

section

variable {ds : List Char}

/-- One sign is read before digits. -/
theorem readInteger?_digits (signs : Nat) (hne : ds ≠ []) (h : ∀ c ∈ ds, isDigit c = true) :
    readInteger? 10 (String.ofList (List.replicate signs '-' ++ ds)) =
      match signs with
      | 0 => (readNatural? 10 (ds.map asciiDigit)).map fun (n : Nat) => (n : Int)
      | 1 => (readNatural? 10 (ds.map asciiDigit)).map fun (n : Nat) => -(n : Int)
      | _ => none := by
  have hspace : ∀ c ∈ List.replicate signs '-' ++ ds, isSpace c = false := fun c hc => by
    rcases List.mem_append.mp hc with hsign | hdigit
    · rw [List.eq_of_mem_replicate hsign]
      decide
    · exact isSpace_eq_false_of_isDigit (h c hdigit)
  have hsign : asciiDigit '-' = '-' := rfl
  rw [readInteger?, trim_of_forall hspace, String.toList_ofList, List.map_append, List.map_replicate,
    hsign]
  match signs with
  | 0 =>
    cases ds with
    | nil => exact absurd rfl hne
    | cons c ds =>
      have hminus := asciiDigit_ne (h c List.mem_cons_self) '-' (by simp)
      have hplus := asciiDigit_ne (h c List.mem_cons_self) '+' (by simp)
      simp only [List.replicate_zero, List.nil_append, List.map_cons]
      split
      · rename_i heq
        exact absurd (List.cons.inj heq).1 hminus
      · rename_i heq
        exact absurd (List.cons.inj heq).1 hplus
      · cases readNatural? 10 (asciiDigit c :: ds.map asciiDigit) <;> rfl
  | 1 =>
    simp only [List.replicate_one, List.singleton_append]
    cases readNatural? 10 (ds.map asciiDigit) <;> rfl
  | signs + 2 =>
    have hnone : readNatural? 10 ('-' :: (List.replicate signs '-' ++ ds.map asciiDigit)) = none := rfl
    simp only [List.replicate_succ, List.cons_append, hnone]
    rfl

theorem readInteger?_eq_none_iff (signs : Nat) (hne : ds ≠ []) (h : ∀ c ∈ ds, isDigit c = true) :
    readInteger? 10 (String.ofList (List.replicate signs '-' ++ ds)) = none ↔
      UnreadableDigits signs ds := by
  have hnatural : readNatural? 10 (ds.map asciiDigit) = none ↔
      (∃ c ∈ ds, decimalValue? c = none) ∨ maxDecimalDigits < ds.length := by
    rw [readNatural?_digits hne h]
    by_cases hother : ∃ c ∈ ds, decimalValue? c = none
    · obtain ⟨c, hc, hnone⟩ := hother
      simp only [mapM_eq_none hc hnone, Option.bind_none, true_iff]
      exact .inl ⟨c, hc, hnone⟩
    · have hvalues : ds.mapM decimalValue? = some (ds.map fun c => (decimalValue? c).getD 0) :=
        mapM_eq_some_map fun c hc => by
          obtain ⟨d, hd⟩ := Option.ne_none_iff_exists'.mp fun hnone => hother ⟨c, hc, hnone⟩
          rw [hd]
          rfl
      simp [hvalues, hother]
  rw [readInteger?_digits signs hne h, UnreadableDigits]
  match signs with
  | 0 => simp only [Option.map_eq_none_iff, hnatural, nonpos_iff_eq_zero, OfNat.ofNat_ne_zero, false_or]
  | 1 => simp only [Option.map_eq_none_iff, hnatural, Nat.not_ofNat_le_one, false_or]
  | signs + 2 => simp

end

theorem decimalValue?_of_isDigit {c : Char} (h : c.isDigit = true) :
    decimalValue? c = some (c.toNat - '0'.toNat) := by
  have hle : 48 ≤ c.toNat ∧ c.toNat ≤ 57 := by
    simpa [Char.isDigit, UInt32.le_iff_toNat_le] using h
  rw [decimalValue?, decimalZeros, List.find?_cons_of_pos (by simpa using hle)]
  rfl

theorem NaturalForm.isDigit {ds : List Char} (h : NaturalForm ds) : ∀ c ∈ ds, isDigit c = true :=
  fun c hc => by simp [Text.isDigit, decimalValue?_of_isDigit (h.digits c hc)]

theorem NaturalForm.eq_of_readNatural? {ds : List Char} {n : Nat} (h : NaturalForm ds)
    (hread : readNatural? 10 (ds.map asciiDigit) = some n) : n = Nat.ofDigitChars 10 ds 0 := by
  have hvalues := mapM_eq_some_map fun c hc => decimalValue?_of_isDigit (h.digits c hc)
  rw [readNatural?_digits h.nonempty h.isDigit, hvalues, Option.bind_some] at hread
  split_ifs at hread
  rw [← Option.some.inj hread, ofDigits, List.foldl_map, Nat.ofDigitChars_eq_foldl]
  simp only [Nat.mul_comm]

/-- Reading undoes writing where the digits are not too many. -/
theorem eq_of_readInteger?_decimalForm {cs : List Char} {m n : Int} (h : DecimalForm cs n)
    (hread : readInteger? 10 (String.ofList cs) = some m) : m = n := by
  cases h with
  | natural h =>
    have hdigits := readInteger?_digits 0 h.nonempty h.isDigit
    rw [List.replicate_zero, List.nil_append, hread] at hdigits
    obtain ⟨k, hk, rfl⟩ := Option.map_eq_some_iff.mp hdigits.symm
    rw [h.eq_of_readNatural? hk]
  | negative h hzero =>
    have hdigits := readInteger?_digits 1 h.nonempty h.isDigit
    rw [List.replicate_one, List.singleton_append, hread] at hdigits
    obtain ⟨k, hk, rfl⟩ := Option.map_eq_some_iff.mp hdigits.symm
    rw [h.eq_of_readNatural? hk]

end Reflection.Number
