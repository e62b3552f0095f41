import Mathlib.Tactic.SplitIfs
import Reflection.Constant.NumberLiteral
import Reflection.Proofs.Number.IntegerText

/-!
# Integer literals

An integer is written in five notations, each with digits of its base after a mark. Reading a literal
undoes writing it, whatever the letter case is and wherever low lines stand: the mark of one notation is
never taken for digits of another one, and no digits of a literal are taken for a mark or for an exponent.
Only decimal literals may be too long to be read, and a bare zero before a digit that is not octal is
refused.

## Main definitions

* `Radix`, `Radix.literal`: the notations, and the literals of a number.
* `SpelledAs`: a text is a literal up to letter case and low lines.

## Main statements

* `Number.readInteger?_digitChar`: how a run of digits is read in a base.
* `readLiteral?_literal`: reading undoes writing.
* `parseNumber_literal`: the same for texts in any letter case and with low lines.
-/
namespace Reflection

open Number Text

/-! ## Runs of digits -/

namespace Number

variable {base : Nat} {vs : List Nat}

theorem ofDigits_concat (base : Nat) (vs : List Nat) (v : Nat) :
    ofDigits base (vs ++ [v]) = ofDigits base vs * base + v := by
  rw [ofDigits, List.foldl_append]
  rfl

theorem ofDigits_replicate_zero_append (base zeros : Nat) (vs : List Nat) :
    ofDigits base (List.replicate zeros 0 ++ vs) = ofDigits base vs := by
  induction zeros with
  | zero => rfl
  | succ zeros ih => simpa [ofDigits, List.replicate_succ] using ih

/-- The digits of a number lie below the base and make up the number. -/
theorem exists_toDigits_eq (hbase : 1 < base) (n : Nat) :
    ∃ vs, Nat.toDigits base n = vs.map Nat.digitChar ∧ (∀ v ∈ vs, v < base) ∧
      ofDigits base vs = n := by
  induction n using Nat.strong_induction_on with
  | _ n ih =>
    by_cases hlt : n < base
    · exact ⟨[n], Nat.toDigits_of_lt_base hlt, by simpa using hlt, by simp [ofDigits]⟩
    · obtain ⟨vs, hvs, hbelow, hvalue⟩ := ih (n / base) (Nat.div_lt_self (by omega) hbase)
      refine ⟨vs ++ [n % base], ?_, ?_, ?_⟩
      · rw [Nat.toDigits_of_base_le hbase (by omega), hvs, List.map_append, List.map_singleton]
      · simpa [or_imp, forall_and] using ⟨hbelow, Nat.mod_lt n (by omega)⟩
      · rw [ofDigits_concat, hvalue, Nat.div_add_mod']

theorem digitChar_spec : ∀ v < 16, digitValue? (Nat.digitChar v) = some v ∧
    isSpace (Nat.digitChar v) = false ∧ (Nat.digitChar v).toNat < 0x80 ∧
    Nat.digitChar v ∉ ['-', '+', '_'] := by
  decide

/-- Decimal digits are neither marks nor parts of a double. -/
theorem digitChar_decimal : ∀ v < 10, Nat.digitChar v ∉ ['.', 'b', 'e', 'n', 'o', 'x'] := by
  decide

theorem lt_sixteen {v : Nat} (hbase : base ∈ [2, 8, 10, 16]) (h : v < max base 10) : v < 16 := by
  have hmax : ∀ base ∈ [2, 8, 10, 16], max base 10 ≤ 16 := by decide
  exact Nat.lt_of_lt_of_le h (hmax base hbase)

/-- Digits are read one by one, and all of them must be digits of the base. -/
theorem readDigits?_digitChar (h : ∀ v ∈ vs, v < 16) (room : Nat) :
    readDigits? base room (vs.map Nat.digitChar) = if ∀ v ∈ vs, v < base then some vs else none := by
  have hlow : '_' ∉ vs.map Nat.digitChar := fun hmem => by
    obtain ⟨v, hv, hc⟩ := List.mem_map.mp hmem
    exact (digitChar_spec v (h v hv)).2.2.2 (by simp [hc])
  rw [readDigits?_eq_mapM hlow]
  clear hlow
  induction vs with
  | nil => rfl
  | cons v vs ih =>
    obtain ⟨hv, hvs⟩ := List.forall_mem_cons.mp h
    rw [List.map_cons, List.mapM_cons, (digitChar_spec v hv).1, ih hvs]
    by_cases hlt : v < base
    · by_cases hall : ∀ v ∈ vs, v < base
      · simp only [Option.filter, List.forall_mem_cons, hlt, true_and, if_pos hall]
        rfl
      · simp only [Option.filter, List.forall_mem_cons, hlt, true_and, if_neg hall]
        rfl
    · simp [Option.filter, hlt]

/-- Digits do not announce a base: the letter that does is no digit of that base. -/
theorem dropBaseMark_digitChar (hbase : base ∈ [2, 8, 10, 16]) (h : ∀ v ∈ vs, v < max base 10) :
    dropBaseMark base (vs.map Nat.digitChar) = vs.map Nat.digitChar := by
  have hletter : ∀ base ∈ [2, 8, 10, 16], ∀ v < max base 10,
      baseLetter? base ≠ some (Nat.digitChar v).toLower := by decide
  unfold dropBaseMark
  split
  · rename_i letter rest heq
    have hmem : letter ∈ vs.map Nat.digitChar := by rw [heq]; simp
    obtain ⟨v, hv, rfl⟩ := List.mem_map.mp hmem
    rw [if_neg (hletter base hbase v (h v hv))]
  · rfl

theorem readNatural?_digitChar (hbase : base ∈ [2, 8, 10, 16]) (hne : vs ≠ [])
    (h : ∀ v ∈ vs, v < max base 10) :
    readNatural? base (vs.map Nat.digitChar) =
      if ∀ v ∈ vs, v < base then
        if base = 10 ∧ maxDecimalDigits < vs.length then none else some (ofDigits base vs)
      else none := by
  have hdigit : ∀ v ∈ vs, v < 16 := fun v hv => lt_sixteen hbase (h v hv)
  have hstart : ((vs.map Nat.digitChar).isEmpty || (vs.map Nat.digitChar).head? == some '_') =
      false := by
    cases vs with
    | nil => exact absurd rfl hne
    | cons v vs =>
      have hlow : Nat.digitChar v ≠ '_' := fun heq =>
        (digitChar_spec v (hdigit v List.mem_cons_self)).2.2.2 (by simp [heq])
      simp [hlow]
  rw [readNatural?, dropBaseMark_digitChar hbase h, hstart, readDigits?_digitChar hdigit]
  by_cases hall : ∀ v ∈ vs, v < base
  · rw [if_pos hall, if_pos hall]
    rfl
  · rw [if_neg hall, if_neg hall]
    rfl

/-- A run of digits is read as their number, if the base has them all and they are not too many. -/
theorem readInteger?_digitChar (hbase : base ∈ [2, 8, 10, 16]) (hne : vs ≠ [])
    (h : ∀ v ∈ vs, v < max base 10) :
    readInteger? base (String.ofList (vs.map Nat.digitChar)) =
      (if ∀ v ∈ vs, v < base then
        if base = 10 ∧ maxDecimalDigits < vs.length then none else some (ofDigits base vs)
      else none).map fun (n : Nat) => (n : Int) := by
  have hspec {c : Char} (hc : c ∈ vs.map Nat.digitChar) : isSpace c = false ∧ asciiDigit c = c ∧
      c ∉ ['-', '+', '_'] := by
    obtain ⟨v, hv, rfl⟩ := List.mem_map.mp hc
    obtain ⟨-, hspace, hascii, hsign⟩ := digitChar_spec v (lt_sixteen hbase (h v hv))
    exact ⟨hspace, if_pos hascii, hsign⟩
  rw [readInteger?, trim_of_forall fun c hc => (hspec hc).1, String.toList_ofList,
    List.map_congr_left fun c hc => (hspec hc).2.1, List.map_id', ← readNatural?_digitChar hbase hne h]
  split
  · rename_i heq
    exact absurd (by simp) (hspec (heq ▸ List.mem_cons_self)).2.2
  · rename_i heq
    exact absurd (by simp) (hspec (heq ▸ List.mem_cons_self)).2.2
  · cases readNatural? base (vs.map Nat.digitChar) <;> rfl

theorem map_digitChar_of_isDigit {ds : List Char} (h : ∀ c ∈ ds, c.isDigit = true) :
    (ds.map fun c => c.toNat - '0'.toNat).map Nat.digitChar = ds := by
  induction ds with
  | nil => rfl
  | cons c ds ih =>
    obtain ⟨hc, hds⟩ := List.forall_mem_cons.mp h
    rw [List.map_cons, List.map_cons, ih hds, (digitChar_of_isDigit hc).2]

end Number

/-! ## Reading in lower case -/

section

variable {vs : List Nat}

theorem readLiteral?_marked (digits : List Char) :
    readLiteral? ('0' :: 'x' :: digits) = (readInteger? 16 (String.ofList digits)).map .int ∧
      readLiteral? ('0' :: 'b' :: digits) = (readInteger? 2 (String.ofList digits)).map .int ∧
      readLiteral? ('0' :: 'o' :: digits) = (readInteger? 8 (String.ofList digits)).map .int :=
  ⟨rfl, rfl, rfl⟩

/-- Decimal digits without a mark are octal after a zero. -/
theorem readLiteral?_digitChar (h : ∀ v ∈ vs, v < 10) :
    readLiteral? (vs.map Nat.digitChar) =
      (readInteger? (if vs.head? = some 0 ∧ 1 < vs.length then 8 else 10)
        (String.ofList (vs.map Nat.digitChar))).map .int := by
  have hspec {c : Char} (hc : c ∈ vs.map Nat.digitChar) : c ∉ ['.', 'b', 'e', 'n', 'o', 'x'] := by
    obtain ⟨v, hv, rfl⟩ := List.mem_map.mp hc
    exact digitChar_decimal v (h v hv)
  have hpoint : (vs.map Nat.digitChar).contains '.' = false := by
    rw [List.contains_eq_mem, decide_eq_false_iff_not]
    exact fun hc => hspec hc (by simp)
  have hexponent : (vs.map Nat.digitChar).contains 'e' = false := by
    rw [List.contains_eq_mem, decide_eq_false_iff_not]
    exact fun hc => hspec hc (by simp)
  have hname (name : String) (hn : 'n' ∈ name.toList) :
      (vs.map Nat.digitChar == name.toList) = false := by
    rw [beq_eq_false_iff_ne]
    exact fun heq => hspec (heq ▸ hn) (by simp)
  have hzero : ((vs.map Nat.digitChar).head? == some '0' &&
      decide (1 < (vs.map Nat.digitChar).length)) = decide (vs.head? = some 0 ∧ 1 < vs.length) := by
    cases vs with
    | nil => rfl
    | cons v vs =>
      have hv : (Nat.digitChar v == '0') = decide (v = 0) := by
        rw [Bool.eq_iff_iff, beq_iff_eq, decide_eq_true_iff, Nat.digitChar_eq_zero]
      simp [hv]
  have hmark {mark : Char} {rest : List Char} (hmark : mark ∈ ['b', 'o', 'x'])
      (heq : vs.map Nat.digitChar = '0' :: mark :: rest) : False := by
    have hsub : ∀ mark ∈ ['b', 'o', 'x'], mark ∈ ['.', 'b', 'e', 'n', 'o', 'x'] := by simp
    have hmem : mark ∈ vs.map Nat.digitChar := by rw [heq]; simp
    exact hspec hmem (hsub mark hmark)
  unfold readLiteral?
  simp only [hpoint, hexponent, hname "inf" (by decide), hname "nan" (by decide), hzero]
  split
  · rename_i heq
    exact (hmark (by simp) heq).elim
  · rename_i heq
    exact (hmark (by simp) heq).elim
  · rename_i heq
    exact (hmark (by simp) heq).elim
  · simp only [Bool.or_false, Bool.false_eq_true, if_false, decide_eq_true_eq]
    split_ifs <;> rfl

theorem readLiteral?_legacyOctal (hne : vs ≠ []) (h : ∀ v ∈ vs, v < 10) :
    readLiteral? ('0' :: vs.map Nat.digitChar) =
      if ∀ v ∈ vs, v < 8 then some (.int (ofDigits 8 vs)) else none := by
  -- The bare zero is read as the first one of the digits.
  have hmark : '0' :: vs.map Nat.digitChar = (0 :: vs).map Nat.digitChar := rfl
  have hzero : (0 :: vs).head? = some 0 ∧ 1 < (0 :: vs).length :=
    ⟨rfl, by simpa [List.length_pos_iff] using hne⟩
  have hdigits : ∀ v ∈ 0 :: vs, v < 10 := List.forall_mem_cons.mpr ⟨by decide, h⟩
  have hvalue : ofDigits 8 (0 :: vs) = ofDigits 8 vs := ofDigits_replicate_zero_append 8 1 vs
  have hbelow : (∀ v ∈ 0 :: vs, v < 8) ↔ ∀ v ∈ vs, v < 8 := by
    rw [List.forall_mem_cons]
    exact and_iff_right (by decide)
  have hbase : ¬ (8 = 10 ∧ maxDecimalDigits < (0 :: vs).length) := fun h => absurd h.1 (by decide)
  rw [hmark, readLiteral?_digitChar hdigits, if_pos hzero,
    readInteger?_digitChar (by decide) (List.cons_ne_nil 0 vs) hdigits, hvalue, if_neg hbase]
  simp only [hbelow]
  split_ifs <;> rfl

theorem readLiteral?_decimal (n : Nat) :
    readLiteral? (Nat.toDigits 10 n) =
      if maxDecimalDigits < (Nat.toDigits 10 n).length then none else some (.int n) := by
  obtain ⟨vs, hvs, hbelow, hvalue⟩ := exists_toDigits_eq (show 1 < 10 by decide) n
  have hne : vs ≠ [] := by
    rintro rfl
    exact Nat.toDigits_ne_nil hvs
  have hlead : ¬ (vs.head? = some 0 ∧ 1 < vs.length) := fun ⟨hhead, hlength⟩ => by
    have hsingle := (naturalForm_toDigits n).lead (by rw [hvs, List.head?_map, hhead]; rfl)
    have hone : vs.length = 1 := by
      rw [← List.length_map Nat.digitChar, ← hvs, hsingle, List.length_singleton]
    omega
  rw [hvs, readLiteral?_digitChar hbelow, if_neg hlead,
    readInteger?_digitChar (by decide) hne hbelow, if_pos hbelow, hvalue, List.length_map]
  simp only [true_and]
  split_ifs <;> rfl

/-- No digit of an octal literal is 8 or 9. -/
theorem readLiteral?_eq_none {ds : List Char} (h : ∀ c ∈ ds, c.isDigit = true)
    (hlarge : '8' ∈ ds ∨ '9' ∈ ds) : readLiteral? ('0' :: ds) = none := by
  have hne : ds.map (fun c => c.toNat - '0'.toNat) ≠ [] := by
    rw [Ne, List.map_eq_nil_iff]
    rintro rfl
    simp at hlarge
  have hdigits : ∀ v ∈ ds.map (fun c => c.toNat - '0'.toNat), v < 10 := fun v hv => by
    obtain ⟨c, hc, rfl⟩ := List.mem_map.mp hv
    exact (digitChar_of_isDigit (h c hc)).1
  rw [← map_digitChar_of_isDigit h, readLiteral?_legacyOctal hne hdigits, if_neg]
  intro hbelow
  rcases hlarge with hmem | hmem
  · exact absurd (hbelow _ (List.mem_map_of_mem hmem)) (by decide)
  · exact absurd (hbelow _ (List.mem_map_of_mem hmem)) (by decide)

end

/-! ## Literals of a number -/

/-- The notations of integers. -/
inductive Radix
  | hexadecimal
  | binary
  | octal
  | legacyOctal
  | decimal
  deriving DecidableEq

namespace Radix

/-- Base of the digits. -/
def base : Radix → Nat
  | hexadecimal => 16
  | binary => 2
  | octal | legacyOctal => 8
  | decimal => 10

/-- What stands before the digits. -/
def mark : Radix → List Char
  | hexadecimal => ['0', 'x']
  | binary => ['0', 'b']
  | octal => ['0', 'o']
  | legacyOctal => ['0']
  | decimal => []

/-- The literal of a number in lower case, with further zeros before its digits. -/
def literal (r : Radix) (zeros n : Nat) : List Char :=
  r.mark ++ (List.replicate zeros '0' ++ Nat.toDigits r.base n)

theorem exists_digits (r : Radix) (zeros n : Nat) :
    ∃ vs, List.replicate zeros '0' ++ Nat.toDigits r.base n = vs.map Nat.digitChar ∧ vs ≠ [] ∧
      (∀ v ∈ vs, v < r.base) ∧ ofDigits r.base vs = n := by
  have hbase : 1 < r.base := by cases r <;> decide
  obtain ⟨vs, hvs, hbelow, hvalue⟩ := exists_toDigits_eq hbase n
  refine ⟨List.replicate zeros 0 ++ vs, ?_, ?_, ?_, ?_⟩
  · rw [hvs, List.map_append, List.map_replicate]
    rfl
  · intro hnil
    rw [(List.append_eq_nil_iff.mp hnil).2] at hvs
    exact Nat.toDigits_ne_nil hvs
  · intro v hv
    rcases List.mem_append.mp hv with hzero | hdigit
    · rw [List.eq_of_mem_replicate hzero]
      exact Nat.zero_lt_of_lt hbase
    · exact hbelow v hdigit
  · rw [ofDigits_replicate_zero_append, hvalue]

theorem ascii_literal (r : Radix) (zeros n : Nat) : ∀ c ∈ r.literal zeros n, c.toNat < 0x80 := by
  obtain ⟨vs, hvs, -, hbelow, -⟩ := r.exists_digits zeros n
  have hbase : r.base ≤ 16 := by cases r <;> decide
  have hmark : ∀ c ∈ r.mark, c.toNat < 0x80 := by cases r <;> simp [mark]
  rw [literal, hvs]
  intro c hc
  rcases List.mem_append.mp hc with hc | hc
  · exact hmark c hc
  · obtain ⟨v, hv, rfl⟩ := List.mem_map.mp hc
    exact (digitChar_spec v (Nat.lt_of_lt_of_le (hbelow v hv) hbase)).2.2.1

end Radix

/-- Each literal of a number is read as the number. Only a decimal one may be too long. -/
theorem readLiteral?_literal (r : Radix) (zeros n : Nat) (hzeros : r = .decimal → zeros = 0) :
    readLiteral? (r.literal zeros n) =
      if r = .decimal ∧ maxDecimalDigits < (Nat.toDigits 10 n).length then none
      else some (.int n) := by
  obtain ⟨vs, hvs, hne, hbelow, hvalue⟩ := r.exists_digits zeros n
  have hread (hbase : r.base ∈ [2, 8, 16]) :
      readInteger? r.base (String.ofList (vs.map Nat.digitChar)) = some (n : Int) := by
    have hbases : ∀ base ∈ [2, 8, 16], base ∈ [2, 8, 10, 16] ∧ base ≠ 10 := by decide
    obtain ⟨hmem, hten⟩ := hbases r.base hbase
    rw [readInteger?_digitChar hmem hne fun v hv => lt_max_of_lt_left (hbelow v hv), if_pos hbelow,
      hvalue, if_neg fun h => hten h.1]
    rfl
  rw [Radix.literal]
  cases r with
  | hexadecimal =>
    rw [hvs]
    exact (readLiteral?_marked _).1.trans (congrArg _ (hread (by decide)))
  | binary =>
    rw [hvs]
    exact (readLiteral?_marked _).2.1.trans (congrArg _ (hread (by decide)))
  | octal =>
    rw [hvs]
    exact (readLiteral?_marked _).2.2.trans (congrArg _ (hread (by decide)))
  | legacyOctal =>
    have hoctal : ∀ v ∈ vs, v < 8 := hbelow
    have hoctalValue : ofDigits 8 vs = n := hvalue
    rw [hvs, Radix.mark, List.singleton_append,
      readLiteral?_legacyOctal hne fun v hv => Nat.lt_trans (hoctal v hv) (by decide),
      if_pos hoctal, hoctalValue]
    rfl
  | decimal =>
    rw [hzeros rfl]
    simp only [true_and]
    exact readLiteral?_decimal n

/-! ## Letter case and low lines -/

/-- A text is a literal up to letter case and low lines. -/
def SpelledAs (text : String) (literal : List Char) : Prop :=
  (text.toList.filter (· != '_')).map Char.toLower = literal

instance (text : String) (literal : List Char) : Decidable (SpelledAs text literal) :=
  inferInstanceAs (Decidable (_ = _))

theorem toNat_lt_of_toLower {c : Char} (h : c.toLower.toNat < 0x80) : c.toNat < 0x80 := by
  unfold Char.toLower at h
  split at h
  · rename_i hupper
    have hle : c.toNat ≤ 'Z'.toNat := UInt32.le_iff_toNat_le.mp hupper.2
    exact Nat.lt_of_le_of_lt hle (by decide)
  · exact h

theorem lowerFrom_ascii {before cs : List Char} (h : ∀ c ∈ cs, c.toNat < 0x80) :
    lowerFrom before cs = cs.map Char.toLower := by
  induction cs generalizing before with
  | nil => rfl
  | cons c cs ih =>
    obtain ⟨hc, hcs⟩ := List.forall_mem_cons.mp h
    have hsigma : c ≠ 'Σ' := by
      rintro rfl
      exact absurd hc (by decide)
    rw [lowerFrom, if_neg hsigma, lowerChar, if_pos hc, ih hcs]
    rfl

/-- A text is parsed by the literal that it spells. -/
theorem parseNumber_of_spelledAs {text : String} {literal : List Char}
    (h : SpelledAs text literal) (hascii : ∀ c ∈ literal, c.toNat < 0x80) :
    parseNumber text = ((readLiteral? literal).map Except.ok).getD
      (.error (.unsupported (.invalidNumber text) (-1))) := by
  have hlower : (lower (String.ofList (text.toList.filter (· != '_')))).toList = literal := by
    rw [lower, String.toList_ofList, String.toList_ofList, lowerFrom_ascii, h]
    intro c hc
    refine toNat_lt_of_toLower (hascii _ ?_)
    rw [← h]
    exact List.mem_map_of_mem hc
  rw [parseNumber, hlower]
  cases readLiteral? literal <;> rfl

/-- A number is what each of its literals is parsed as, in every notation, with zeros before its digits
except in a decimal one, with letters in any case and with low lines anywhere; a decimal literal of too
many digits is refused. A bare zero before decimal digits among which is 8 or 9 is refused, too. -/
theorem parseNumber_literal (text : String) :
    (∀ (r : Radix) (zeros n : Nat), (r = .decimal → zeros = 0) → SpelledAs text (r.literal zeros n) →
      parseNumber text =
        if r = .decimal ∧ maxDecimalDigits < (Nat.toDigits 10 n).length then
          .error (.unsupported (.invalidNumber text) (-1))
        else .ok (.int n)) ∧
    ∀ ds : List Char, (∀ c ∈ ds, c.isDigit = true) → ('8' ∈ ds ∨ '9' ∈ ds) →
      SpelledAs text ('0' :: ds) →
      parseNumber text = .error (.unsupported (.invalidNumber text) (-1)) := by
  constructor
  · intro r zeros n hzeros htext
    rw [parseNumber_of_spelledAs htext (r.ascii_literal zeros n),
      readLiteral?_literal r zeros n hzeros]
    split_ifs <;> rfl
  · intro ds hds hlarge htext
    have hascii : ∀ c ∈ '0' :: ds, c.toNat < 0x80 := by
      refine List.forall_mem_cons.mpr ⟨by decide, fun c hc => ?_⟩
      have hlt := (digitChar_of_isDigit (hds c hc)).1
      have hzero : '0'.toNat = 48 := rfl
      omega
    rw [parseNumber_of_spelledAs htext hascii, readLiteral?_eq_none hds hlarge]
    rfl

/-- Letters that other notations use as a mark or as an exponent are hexadecimal digits. -/
theorem parseNumber_literal_mixedCase :
    SpelledAs "0X_0B__1e" (Radix.hexadecimal.literal 1 0xB1E) ∧
      parseNumber "0X_0B__1e" = .ok (.int 0xB1E) ∧
      SpelledAs "0_1_9" ['0', '1', '9'] ∧
      parseNumber "0_1_9" = .error (.unsupported (.invalidNumber "0_1_9") (-1)) := by
  have hnumber : SpelledAs "0X_0B__1e" (Radix.hexadecimal.literal 1 0xB1E) := by decide
  have hoctal : SpelledAs "0_1_9" ['0', '1', '9'] := by decide
  have hdigits : ∀ c ∈ ['1', '9'], c.isDigit = true := by simp
  exact ⟨hnumber, (parseNumber_literal "0X_0B__1e").1 .hexadecimal 1 0xB1E nofun hnumber,
    hoctal, (parseNumber_literal "0_1_9").2 ['1', '9'] hdigits (.inr (by simp)) hoctal⟩

end Reflection
