import Mathlib.Tactic.SplitIfs
import Reflection.Text.Encoding

/-!
# Texts and their octets

The octets of a text in UTF-8 are those of its characters one after the other, and they are read as
these characters, so no text is lost on the way there and back.

## Main statements

* `encodeUtf8_append`: the octets of two texts.
* `utf8Units_encodeUtf8`: the octets of a text are read as its characters.
* `decodeLossy_encodeUtf8`: decoding the octets of a text gives the text.
-/
namespace Reflection.Text

/-! ## Octets of a text -/

theorem toList_loop (octets : ByteArray) (i : Nat) (read : List UInt8) :
    ByteArray.toList.loop octets i read = read.reverse ++ octets.data.toList.drop i := by
  fun_induction ByteArray.toList.loop octets i read with
  | case1 i read hlt ih =>
    have hlength : i < octets.data.toList.length := by simpa using hlt
    have hget : octets.get! i = octets.data.toList[i] := by
      obtain ⟨data⟩ := octets
      exact getElem!_pos data i hlt
    rw [ih, List.drop_eq_getElem_cons hlength, hget, List.reverse_cons, List.append_assoc]
    rfl
  | case2 i read hge =>
    rw [List.drop_eq_nil_of_le (by simpa using Nat.le_of_not_lt hge), List.append_nil]

/-- The octets of a text are those of its characters, one after the other. -/
theorem encodeUtf8_ofList (cs : List Char) :
    encodeUtf8 (String.ofList cs) = cs.flatMap String.utf8EncodeChar := by
  rw [encodeUtf8, String.toUTF8_eq_toByteArray, String.toByteArray_ofList, ByteArray.toList,
    toList_loop, List.utf8Encode, List.toList_data_toByteArray]
  rfl

theorem encodeUtf8_eq (s : String) : encodeUtf8 s = s.toList.flatMap String.utf8EncodeChar := by
  rw [← encodeUtf8_ofList, String.ofList_toList]

theorem encodeUtf8_append (s t : String) : encodeUtf8 (s ++ t) = encodeUtf8 s ++ encodeUtf8 t := by
  simp only [encodeUtf8_eq, String.toList_append, List.flatMap_append]

@[simp] theorem encodeUtf8_empty : encodeUtf8 "" = [] := by
  rw [encodeUtf8_eq]
  rfl

/-- Only the empty text has no octets. -/
theorem eq_empty_of_encodeUtf8 {s : String} (h : encodeUtf8 s = []) : s = "" := by
  rw [encodeUtf8_eq, List.flatMap_eq_nil_iff] at h
  refine String.toList_inj.mp (List.eq_nil_iff_forall_not_mem.mpr fun c hc => ?_)
  exact String.utf8EncodeChar_ne_nil (h c hc)

/-! ## Reading the octets of a character -/

theorem utf8Tail_zero (least greatest bits : Nat) (octets : List UInt8) :
    utf8Tail 0 least greatest bits octets = (some (Char.ofNat bits), 0) := by
  cases octets <;> rfl

theorem utf8Units_lead {b : UInt8} {rest : List UInt8} {lead : Utf8Lead} (hb : ¬ b.toNat < 0x80)
    (hlead : Utf8Lead.of? b.toNat = some lead) :
    utf8Units (b :: rest) =
      (utf8Tail lead.following lead.least lead.greatest lead.bits rest).1 ::
        utf8Units (rest.drop (utf8Tail lead.following lead.least lead.greatest lead.bits rest).2) := by
  rw [utf8Units, if_neg hb, hlead]

/-- The number of an octet that is given by a number below 256. -/
theorem toNat_octet {n : Nat} (h : n < 256) : (UInt8.ofNat n).toNat = n := UInt8.toNat_ofNat_of_lt h

/-- The first octet of a number in three octets. The second octet is bounded so that the number could
not be written shorter and is no surrogate. -/
theorem exists_lead_three {v : Nat} (hleast : 0x800 ≤ v) (hmost : v < 0x10000)
    (hvalid : v < 0xD800 ∨ 0xDFFF < v) :
    ∃ lead, Utf8Lead.of? (v / 4096 % 16 + 224) = some lead ∧ lead.following = 2 ∧
      lead.bits = v / 4096 ∧ lead.least ≤ v / 64 % 64 + 128 ∧ v / 64 % 64 + 128 ≤ lead.greatest := by
  unfold Utf8Lead.of?
  split_ifs with h2 hE0 hED h3 hF0 h4 hF4
  -- The octets that lead another number of octets are out of range.
  any_goals omega
  all_goals exact ⟨_, rfl, rfl, by dsimp only; omega, by dsimp only; omega, by dsimp only; omega⟩

/-- The first octet of a number in four octets. The second octet is bounded so that the number could
not be written shorter and is that of a character. -/
theorem exists_lead_four {v : Nat} (hleast : 0x10000 ≤ v) (hmost : v < 0x110000) :
    ∃ lead, Utf8Lead.of? (v / 262144 % 8 + 240) = some lead ∧ lead.following = 3 ∧
      lead.bits = v / 262144 ∧ lead.least ≤ v / 4096 % 64 + 128 ∧
      v / 4096 % 64 + 128 ≤ lead.greatest := by
  unfold Utf8Lead.of?
  split_ifs with h2 hE0 hED h3 hF0 h4 hF4
  any_goals omega
  all_goals exact ⟨_, rfl, rfl, by dsimp only; omega, by dsimp only; omega, by dsimp only; omega⟩

/-- A later octet of a character, by the six places that it adds. -/
theorem utf8Tail_octet {n least greatest bits places : Nat} (rest : List UInt8) (h : places < 64)
    (hleast : least ≤ places + 128) (hgreatest : places + 128 ≤ greatest) :
    utf8Tail (n + 1) least greatest bits (UInt8.ofNat (places + 128) :: rest) =
      ((utf8Tail n 0x80 0xBF (bits * 64 + places) rest).1,
        (utf8Tail n 0x80 0xBF (bits * 64 + places) rest).2 + 1) := by
  have hoctet : (UInt8.ofNat (places + 128)).toNat = places + 128 := toNat_octet (by omega)
  rw [utf8Tail, if_pos (by rw [hoctet]; exact ⟨hleast, hgreatest⟩), hoctet, Nat.add_sub_cancel]

/-- The octets of a character are read as that character. -/
theorem utf8Units_utf8EncodeChar (c : Char) (rest : List UInt8) :
    utf8Units (String.utf8EncodeChar c ++ rest) = some c :: utf8Units rest := by
  have hvalid : c.val.toNat < 0xD800 ∨ (0xDFFF < c.val.toNat ∧ c.val.toNat < 0x110000) := c.valid
  have hchar (n : Nat) (hn : n = c.val.toNat) : Char.ofNat n = c := by
    rw [hn]
    exact Char.ofNat_toNat c
  have hplaces (n : Nat) : n % 64 < 64 := Nat.mod_lt n (by decide)
  unfold String.utf8EncodeChar
  generalize c.val.toNat = v at hvalid hchar
  simp only
  split_ifs with hone htwo hthree
  · have hoctet : (UInt8.ofNat v).toNat = v := toNat_octet (by omega)
    rw [List.singleton_append, utf8Units, hoctet, if_pos (by omega), hchar v rfl]
  · have hoctet : (UInt8.ofNat (v / 64 % 32 + 192)).toNat = v / 64 % 32 + 192 :=
      toNat_octet (by omega)
    have hlead : Utf8Lead.of? (v / 64 % 32 + 192) =
        some ⟨1, 0x80, 0xBF, v / 64 % 32 + 192 - 0xC0⟩ := by
      rw [Utf8Lead.of?, if_pos (by omega)]
    rw [List.cons_append, utf8Units_lead (by omega) (by rw [hoctet, hlead])]
    simp only [List.cons_append, List.nil_append]
    rw [utf8Tail_octet rest (hplaces v) (by omega) (by omega), utf8Tail_zero, hchar _ (by omega)]
    rfl
  · have hoctet : (UInt8.ofNat (v / 4096 % 16 + 224)).toNat = v / 4096 % 16 + 224 :=
      toNat_octet (by omega)
    obtain ⟨lead, hlead, hfollowing, hbits, hleast, hgreatest⟩ :=
      exists_lead_three (v := v) (by omega) (by omega) (by omega)
    rw [List.cons_append, utf8Units_lead (by omega) (by rw [hoctet, hlead]), hfollowing, hbits]
    simp only [List.cons_append, List.nil_append]
    rw [utf8Tail_octet _ (hplaces _) hleast hgreatest,
      utf8Tail_octet _ (hplaces _) (by omega) (by omega), utf8Tail_zero, hchar _ (by omega)]
    rfl
  · have hoctet : (UInt8.ofNat (v / 262144 % 8 + 240)).toNat = v / 262144 % 8 + 240 :=
      toNat_octet (by omega)
    obtain ⟨lead, hlead, hfollowing, hbits, hleast, hgreatest⟩ :=
      exists_lead_four (v := v) (by omega) (by omega)
    rw [List.cons_append, utf8Units_lead (by omega) (by rw [hoctet, hlead]), hfollowing, hbits]
    simp only [List.cons_append, List.nil_append]
    rw [utf8Tail_octet _ (hplaces _) hleast hgreatest,
      utf8Tail_octet _ (hplaces _) (by omega) (by omega),
      utf8Tail_octet _ (hplaces _) (by omega) (by omega), utf8Tail_zero, hchar _ (by omega)]
    rfl

/-! ## Reading the octets of a text -/

/-- The octets of a text are read as its characters. -/
theorem utf8Units_encodeUtf8 (s : String) : utf8Units (encodeUtf8 s) = s.toList.map some := by
  rw [encodeUtf8_eq]
  induction s.toList with
  | nil => rw [List.flatMap_nil, utf8Units, List.map_nil]
  | cons c cs ih => rw [List.flatMap_cons, utf8Units_utf8EncodeChar, ih, List.map_cons]

/-- Decoding the octets of a text gives the text. -/
theorem decodeLossy_encodeUtf8 (s : String) : decodeLossy (encodeUtf8 s) = s := by
  have hread : (s.toList.map some).map (·.getD '\uFFFD') = s.toList := by
    simp only [List.map_map, Function.comp_def, Option.getD_some, List.map_id']
  rw [decodeLossy, utf8Units_encodeUtf8, hread, String.ofList_toList]

end Reflection.Text
