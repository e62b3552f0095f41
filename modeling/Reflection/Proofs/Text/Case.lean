import Mathlib.Tactic.SplitIfs
import Reflection.Text.Case

/-!
# Lower-case texts

The lower-case form of a text has itself for its lower-case form: what a character becomes is no capital
sigma and stays as it is. For the tables of case mappings this is a relation of their runs, two by two:
no run holds a counterpart of another one.

## Main definitions

* `CaseRun.Holds`, `CaseRun.avoids`: the characters of a run, and runs that hold none of the counterparts
  of another one.
* `IsLower`: a character that stays as it is.

## Main statements

* `mem_lowerChar_cases`: where the characters of a lower-case form come from.
* `lower_lower`: a text in lower case stays as it is.
* `eq_of_mem_lowerChar`: an ASCII character that is no small letter comes only from itself.
-/
namespace Reflection.Text

variable {c d : Char} {r : CaseRun} {n : Nat}

namespace CaseRun

/-- A code point belongs to a run. -/
structure Holds (r : CaseRun) (n : Nat) : Prop where
  first_le : r.first ≤ n
  le_last : n ≤ r.last
  step : (n - r.first) % r.step = 0

/-- Counterpart of a code point of a run. -/
def counterpart (r : CaseRun) (n : Nat) : Nat := ((n : Int) + r.shift).toNat

/-- A run holds no counterpart of a code point of another one: the run lies above or below all of these,
or their steps of two keep them apart. -/
def avoids (r : CaseRun) (low high step : Nat) : Bool :=
  Nat.blt high r.first || Nat.blt r.last low ||
    Nat.beq r.step 2 && (Nat.beq step 2 || Nat.beq low high) && Nat.beq ((low + r.first) % 2) 1

theorem not_holds_of_avoids {other : CaseRun} (hpositive : 0 ≤ (r.first : Int) + r.shift)
    (havoids : other.avoids (r.counterpart r.first) (r.counterpart r.last) r.step = true)
    (h : r.Holds n) : ¬ other.Holds (r.counterpart n) := by
  obtain ⟨hfirst, hlast, hstep⟩ := h
  rintro ⟨hfirst', hlast', hstep'⟩
  simp only [avoids, Bool.or_eq_true, Bool.and_eq_true, Nat.blt_eq, Nat.beq_eq,
    counterpart] at havoids
  unfold counterpart at hfirst' hlast' hstep'
  rcases havoids with (habove | hbelow) | ⟨⟨htwo, hspread⟩, hparity⟩
  · omega
  · omega
  · rw [htwo] at hstep'
    rcases hspread with heven | hone
    · rw [heven] at hstep
      omega
    · omega

theorem apply_cases (runs : List CaseRun) (c : Char) :
    (∃ r ∈ runs, r.Holds c.toNat ∧ apply runs c = Char.ofNat (r.counterpart c.toNat)) ∨
      (∀ r ∈ runs, ¬ r.Holds c.toNat) ∧ apply runs c = c := by
  unfold apply
  split
  · rename_i r hr
    have hspan := List.find?_some hr
    simp only [Bool.and_eq_true, decide_eq_true_eq, beq_iff_eq] at hspan
    exact .inl ⟨r, List.mem_of_find?_eq_some hr, ⟨hspan.1.1, hspan.1.2, hspan.2⟩, rfl⟩
  · rename_i hr
    refine .inr ⟨fun r hmem hholds => List.find?_eq_none.mp hr r hmem ?_, rfl⟩
    simp [hholds.first_le, hholds.le_last, hholds.step]

end CaseRun

/-! ## Tables -/

/-- The counterparts of the runs are characters, none of them has a sequence for its lower-case form, and
those that are ASCII are letters. -/
theorem counterparts_lowerRuns : ∀ r ∈ lowerRuns, 0 ≤ (r.first : Int) + r.shift ∧
    (r.counterpart r.last < 0xD800 ∨
      0xDFFF < r.counterpart r.first ∧ r.counterpart r.last < 0x110000) ∧
    (r.counterpart r.last < 0x130 ∨ 0x130 < r.counterpart r.first) ∧
    (0x80 ≤ r.counterpart r.first ∨ 0x61 ≤ r.counterpart r.first ∧ r.counterpart r.last ≤ 0x7A) := by
  decide +kernel

theorem avoids_lowerRuns : (lowerRuns.all fun r => lowerRuns.all fun other =>
    other.avoids (r.counterpart r.first) (r.counterpart r.last) r.step) = true := by
  decide +kernel

theorem lookup_lowerSequences (hn : n ≠ 0x130) : lowerSequences.lookup n = none := by
  refine List.lookup_eq_none_iff.mpr fun e he => ?_
  rw [List.mem_singleton.mp he]
  exact bne_iff_ne.mpr hn

/-- What the counterpart of a code point of a run is. -/
theorem counterpart_spec (hr : r ∈ lowerRuns) (h : r.Holds n) :
    (Char.ofNat (r.counterpart n)).toNat = r.counterpart n ∧
      (∀ other ∈ lowerRuns, ¬ other.Holds (r.counterpart n)) ∧ r.counterpart n ≠ 0x130 ∧
      (0x80 ≤ r.counterpart n ∨ 0x61 ≤ r.counterpart n ∧ r.counterpart n ≤ 0x7A) := by
  obtain ⟨hpositive, hvalid, hsequence, hletter⟩ := counterparts_lowerRuns r hr
  have hlow : r.counterpart r.first ≤ r.counterpart n := by
    have hfirst := h.first_le
    unfold CaseRun.counterpart
    omega
  have hhigh : r.counterpart n ≤ r.counterpart r.last := by
    have hlast := h.le_last
    unfold CaseRun.counterpart
    omega
  refine ⟨?_, fun other hother => ?_, by omega, by omega⟩
  · have hchar : (r.counterpart n).isValidChar := by
      unfold Nat.isValidChar
      omega
    rw [Char.ofNat, dif_pos hchar]
    rfl
  · have havoids := List.all_eq_true.mp (List.all_eq_true.mp avoids_lowerRuns r hr) other hother
    exact CaseRun.not_holds_of_avoids hpositive havoids h

/-! ## Characters -/

theorem apply_lowerRuns_ascii : ∀ n < 0x80,
    CaseRun.apply lowerRuns (Char.ofNat n) = (Char.ofNat n).toLower := by
  decide +kernel

/-- Unless it becomes a sequence, a character becomes its counterpart. -/
theorem lowerChar_eq (h : lowerSequences.lookup c.toNat = none) :
    lowerChar c = [CaseRun.apply lowerRuns c] := by
  unfold lowerChar
  split_ifs with hascii
  · have happly := apply_lowerRuns_ascii c.toNat hascii
    rw [Char.ofNat_toNat] at happly
    rw [happly]
  · rw [h]

/-- A character of a lower-case form belongs to a sequence of the table, is a counterpart, or is the
character itself, which then becomes nothing else. -/
theorem mem_lowerChar_cases (h : d ∈ lowerChar c) :
    (∃ e ∈ lowerSequences, ∃ n ∈ e.2, d = Char.ofNat n) ∨
      (∃ r ∈ lowerRuns, r.Holds c.toNat ∧ d = Char.ofNat (r.counterpart c.toNat)) ∨
      d = c ∧ lowerChar c = [c] := by
  cases hlookup : lowerSequences.lookup c.toNat with
  | some letters =>
    by_cases hn : c.toNat = 0x130
    · have hc : c = Char.ofNat 0x130 := by rw [← hn, Char.ofNat_toNat]
      subst hc
      obtain ⟨n, hn, rfl⟩ := List.mem_map.mp h
      exact .inl ⟨_, List.mem_singleton_self _, n, hn, rfl⟩
    · rw [lookup_lowerSequences hn] at hlookup
      cases hlookup
  | none =>
    have hform := lowerChar_eq hlookup
    rw [hform, List.mem_singleton] at h
    subst h
    rcases CaseRun.apply_cases lowerRuns c with ⟨r, hr, hholds, happly⟩ | ⟨-, happly⟩
    · exact .inr (.inl ⟨r, hr, hholds, happly⟩)
    · rw [happly] at hform
      exact .inr (.inr ⟨happly, hform⟩)

/-- The character stays as it is in lower case. -/
def IsLower (c : Char) : Prop := c ≠ 'Σ' ∧ lowerChar c = [c]

instance : DecidablePred IsLower := fun _ => inferInstanceAs (Decidable (_ ∧ _))

theorem isLower_lowerSequences : ∀ e ∈ lowerSequences, ∀ n ∈ e.2, IsLower (Char.ofNat n) := by
  decide +kernel

/-- The characters of a lower-case form stay as they are. -/
theorem isLower_of_mem_lowerChar (hc : c ≠ 'Σ') (h : d ∈ lowerChar c) : IsLower d := by
  rcases mem_lowerChar_cases h with ⟨e, he, n, hn, rfl⟩ | ⟨r, hr, hholds, rfl⟩ | ⟨rfl, hform⟩
  · exact isLower_lowerSequences e he n hn
  · obtain ⟨htoNat, hfree, hsequence, -⟩ := counterpart_spec hr hholds
    have hstays : CaseRun.apply lowerRuns (Char.ofNat (r.counterpart c.toNat)) =
        Char.ofNat (r.counterpart c.toNat) := by
      rcases CaseRun.apply_cases lowerRuns (Char.ofNat (r.counterpart c.toNat)) with
        ⟨other, hother, hholds', -⟩ | ⟨-, happly⟩
      · rw [htoNat] at hholds'
        exact absurd hholds' (hfree other hother)
      · exact happly
    constructor
    · intro hsigma
      rw [hsigma] at hstays
      exact absurd hstays (by decide +kernel)
    · rw [lowerChar_eq (lookup_lowerSequences (htoNat.symm ▸ hsequence)), hstays]
  · exact ⟨hc, hform⟩

theorem lowerChar_ne_nil (c : Char) : lowerChar c ≠ [] := by
  by_cases hn : c.toNat = 0x130
  · have hc : c = Char.ofNat 0x130 := by rw [← hn, Char.ofNat_toNat]
    rw [hc]
    decide +kernel
  · rw [lowerChar_eq (lookup_lowerSequences hn)]
    exact List.cons_ne_nil _ _

/-- An ASCII character that is no small letter comes only from itself. -/
theorem eq_of_mem_lowerChar (hascii : d.toNat < 0x80) (hletter : d.toNat < 0x61 ∨ 0x7A < d.toNat)
    (h : d ∈ lowerChar c) : d = c := by
  rcases mem_lowerChar_cases h with ⟨e, he, n, hn, rfl⟩ | ⟨r, hr, hholds, rfl⟩ | ⟨rfl, -⟩
  · have hsequences : ∀ e ∈ lowerSequences, ∀ n ∈ e.2, (Char.ofNat n).toNat < 0x80 →
        0x61 ≤ (Char.ofNat n).toNat ∧ (Char.ofNat n).toNat ≤ 0x7A := by decide +kernel
    have hsmall := hsequences e he n hn hascii
    omega
  · obtain ⟨htoNat, -, -, hsmall⟩ := counterpart_spec hr hholds
    omega
  · rfl

/-! ## Texts -/

theorem isLower_of_mem_lowerFrom {before cs : List Char} (h : d ∈ lowerFrom before cs) :
    IsLower d := by
  induction cs generalizing before with
  | nil => cases h
  | cons c rest ih =>
    rcases List.mem_append.mp h with hd | hd
    · by_cases hsigma : c = 'Σ'
      · rw [if_pos hsigma, List.mem_singleton] at hd
        subst hd
        split_ifs <;> decide +kernel
      · rw [if_neg hsigma] at hd
        exact isLower_of_mem_lowerChar hsigma hd
    · exact ih hd

/-- In lower case a text starts with an ASCII character that is no small letter only if it does so
itself. -/
theorem head_lowerFrom {before cs : List Char} (hascii : d.toNat < 0x80)
    (hletter : d.toNat < 0x61 ∨ 0x7A < d.toNat) (h : (lowerFrom before cs).head? = some d) :
    cs.head? = some d := by
  cases cs with
  | nil => cases h
  | cons c rest =>
    rw [lowerFrom] at h
    by_cases hsigma : c = 'Σ'
    · rw [if_pos hsigma, List.singleton_append, List.head?_cons, Option.some.injEq] at h
      subst h
      split_ifs at hascii <;> exact absurd hascii (by decide)
    · rw [if_neg hsigma, List.head?_append] at h
      cases hform : (lowerChar c).head? with
      | none => exact absurd (List.head?_eq_none_iff.mp hform) (lowerChar_ne_nil c)
      | some e =>
        rw [hform, Option.some_or, Option.some.injEq] at h
        subst h
        rw [eq_of_mem_lowerChar hascii hletter (List.mem_of_head? hform), List.head?_cons]

theorem lowerFrom_of_isLower {before cs : List Char} (h : ∀ c ∈ cs, IsLower c) :
    lowerFrom before cs = cs := by
  induction cs generalizing before with
  | nil => rfl
  | cons c rest ih =>
    obtain ⟨⟨hsigma, hform⟩, hrest⟩ := List.forall_mem_cons.mp h
    rw [lowerFrom, if_neg hsigma, hform, ih hrest]
    rfl

theorem facesLetter_concat {neighbours : List Char} (hcased : casedRanges.has c = false)
    (hignorable : caseIgnorableRanges.has c = false) :
    facesLetter (neighbours ++ [c]) = facesLetter neighbours := by
  unfold facesLetter
  cases hnear : neighbours.dropWhile caseIgnorableRanges.has with
  | nil => simp [List.dropWhile_append, hnear, hcased, hignorable]
  | cons d rest => simp [List.dropWhile_append, hnear]

/-- In front of a text, a character without influence on case changes nothing in the lower-case form of
what follows. -/
theorem lowerFrom_concat (before cs : List Char) (hcased : casedRanges.has c = false)
    (hignorable : caseIgnorableRanges.has c = false) :
    lowerFrom (before ++ [c]) cs = lowerFrom before cs := by
  induction cs generalizing before with
  | nil => rfl
  | cons d rest ih =>
    rw [lowerFrom, lowerFrom, facesLetter_concat hcased hignorable, ← List.cons_append, ih]

/-- A text in lower case stays as it is. -/
theorem lower_lower (s : String) : lower (lower s) = lower s := by
  unfold lower
  rw [String.toList_ofList, lowerFrom_of_isLower fun c => isLower_of_mem_lowerFrom]

end Reflection.Text
