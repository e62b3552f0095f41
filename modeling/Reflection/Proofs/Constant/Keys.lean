import Mathlib
import Reflection.Proofs.Constant.Soundness
import Reflection.Proofs.Number.IntegerText
import Reflection.Proofs.Report
import Reflection.Proofs.Table

/-!
# Keys of arrays

Every element of an array that has a key somewhere is filed under an integer or a text. A written key is
normalised: booleans are zero and one, doubles lose their fraction, and the decimal form of an integer is
that integer. An element without key gets the next integer, which is neither negative nor up to any
integer before it. So does an element whose key is null, although the language takes null for the empty
text; and a text of digits that cannot be read has no key at all, although the language takes it for
itself.

## Main definitions

* `Value.Normal`, `Value.NamesKey`: the key of a written key, and the one that the language gives it.
* `Filed`: the keys of the elements of an array.
* `Collected`: the map that elements make.
* `CodeText.Denotes`, `CodeText.Unreadable`: the texts that are integers, and those that have no key.

## Main statements

* `Collected.concat`, `Collected.entriesFrom`: one element more, and all of them.
* `evaluate_array_filed`: the keys of an array that has a value.
* `evaluate_array_keys`: when the keys of an array leave it without a value.
-/
namespace Reflection

open Number Text

/-! ## Written keys -/

/-- The text is the decimal form of an integer. -/
def Text.CodeText.Denotes (s : CodeText) (n : Int) : Prop := ∃ cs, s = .ofChars cs ∧ DecimalForm cs n

namespace Value

/-- The key that a written key stands for. Null stands for none by itself. -/
inductive Normal : Value → Key → Prop
  | bool (b : Bool) : Normal (.bool b) (.int (if b then 1 else 0))
  | int (n : Int) : Normal (.int n) (.int n)
  | float {x : Float} (hnan : x.isNaN = false) (hinf : x.isInf = false) :
      Normal (.float x) (.int (truncate x))
  | decimal {s : CodeText} {n : Int} (h : s.Denotes n) : Normal (.text s) (.int n)
  | text {s : CodeText} (h : ∀ n, ¬ s.Denotes n) : Normal (.text s) (.text s)

/-- The key that the language gives a written key: null is the empty text. -/
inductive NamesKey : Value → Key → Prop
  | null : NamesKey .null (.text "")
  | normal {v : Value} {key : Key} (h : v.Normal key) : NamesKey v key

/-- The value is null, a boolean, an integer, a finite double or a text. -/
def IsPlain : Value → Prop
  | null | bool _ | int _ | text _ => True
  | float x => x.isNaN = false ∧ x.isInf = false
  | list _ | map _ => False

end Value

/-! ## Elements -/

/-- The least integer that is neither negative nor up to an integer among the keys. -/
def IsNext (keys : List Key) (n : Int) : Prop := IsLeast {n | 0 ≤ n ∧ ∀ m, Key.int m ∈ keys → m < n} n

theorem isNext_nil : IsNext [] 0 := ⟨⟨le_refl 0, by simp⟩, fun _ h => h.1⟩

theorem IsNext.concat {keys : List Key} {n : Int} (h : IsNext keys n) (key : Key) :
    IsNext (keys ++ [key]) (Value.nextAfter n key) := by
  obtain ⟨⟨hnonneg, hgreater⟩, hleast⟩ := h
  cases key with
  | text s => exact ⟨⟨hnonneg, by simpa [Value.nextAfter] using hgreater⟩, fun m hm =>
      hleast ⟨hm.1, fun k hk => hm.2 k (List.mem_append_left _ hk)⟩⟩
  | int k =>
    refine ⟨⟨le_max_of_le_left hnonneg, fun m hm => ?_⟩, fun m hm => max_le ?_ ?_⟩
    · rcases List.mem_append.mp hm with hm | hm
      · exact lt_max_of_lt_left (hgreater m hm)
      · obtain rfl : m = k := Key.int.inj (List.mem_singleton.mp hm)
        exact lt_max_of_lt_right (lt_add_one m)
    · exact hleast ⟨hm.1, fun k hk => hm.2 k (List.mem_append_left _ hk)⟩
    · exact Int.add_one_le_iff.mpr (hm.2 k (List.mem_append_right _ (List.mem_singleton_self _)))

/-- The keys under which elements with their written keys are filed, one after the other. -/
inductive Filed : List (Option Value × Value) → List Key → Prop
  | nil : Filed [] []
  | positional {elements : List (Option Value × Value)} {keys : List Key} {n : Int}
      (h : Filed elements keys) (hn : IsNext keys n) (v : Value) :
      Filed (elements ++ [(none, v)]) (keys ++ [.int n])
  | null {elements : List (Option Value × Value)} {keys : List Key} {n : Int}
      (h : Filed elements keys) (hn : IsNext keys n) (v : Value) :
      Filed (elements ++ [(some .null, v)]) (keys ++ [.int n])
  | keyed {elements : List (Option Value × Value)} {keys : List Key} {k : Value} {key : Key}
      (h : Filed elements keys) (hkey : k.Normal key) (v : Value) :
      Filed (elements ++ [(some k, v)]) (keys ++ [key])

theorem Filed.length_eq {elements : List (Option Value × Value)} {keys : List Key}
    (h : Filed elements keys) : elements.length = keys.length := by
  induction h with
  | nil => rfl
  | positional _ _ _ ih => simp [ih]
  | null _ _ _ ih => simp [ih]
  | keyed _ _ _ ih => simp [ih]

/-- The entries that elements make: the keys stand in the order in which they come first, and each one
has the value of the last element under it. -/
structure Collected (elements : List (Option Value × Value)) (keys : List Key)
    (entries : Table Key Value) : Prop where
  filed : Filed elements keys
  order : Table.keys entries = keys.eraseDups
  last : ∀ key,
    Table.find? entries key = Table.find? (keys.zip (elements.map Prod.snd)).reverse key

theorem collected_nil : Collected [] [] [] := ⟨.nil, rfl, fun _ => rfl⟩

theorem Collected.concat {elements : List (Option Value × Value)} {keys : List Key}
    {entries : Table Key Value} (h : Collected elements keys entries) (element : Option Value × Value)
    {key : Key} (hfiled : Filed (elements ++ [element]) (keys ++ [key])) :
    Collected (elements ++ [element]) (keys ++ [key]) (Table.insert entries key element.2) where
  filed := hfiled
  order := by
    rw [Table.keys_insert, h.order, Table.eraseDups_concat]
    simp only [List.mem_eraseDups]
  last k := by
    have hlength : keys.length = (elements.map Prod.snd).length := by
      rw [List.length_map, h.filed.length_eq]
    rw [List.map_append, List.zip_append hlength, List.reverse_append, Table.find?_insert, h.last]
    rfl

/-! ## Texts of digits -/

namespace Text.CodeText

/-- Signs and digits that cannot be read as an integer. -/
def Unreadable (s : CodeText) : Prop :=
  ∃ signs ds, s = .ofChars (List.replicate signs '-' ++ ds) ∧ ds ≠ [] ∧
    (∀ c ∈ ds, isDigit c = true) ∧ UnreadableDigits signs ds

theorem ofChars_eq_ofString (cs : List Char) : ofChars cs = ofString (String.ofList cs) := by
  rw [ofString, String.toList_ofList]

theorem ofChars_inj {cs cs' : List Char} : ofChars cs = ofChars cs' ↔ cs = cs' := by
  rw [ofChars_eq_ofString, ofChars_eq_ofString, ofString_inj, String.ofList_inj]

/-- A text without surrogates is a string. -/
theorem eq_ofString_of_string? {s : CodeText} {str : String} (h : s.string? = some str) :
    s = ofString str := by
  have hpoints : ∀ {points : List CodePoint} {cs : List Char},
      points.mapM CodePoint.char? = some cs → points = cs.map .char := by
    intro points
    induction points with
    | nil =>
      rintro _ ⟨⟩
      rfl
    | cons point points ih =>
      intro cs hcs
      cases point with
      | surrogate n => cases hcs
      | char c =>
        have hbind : (points.mapM CodePoint.char?).bind (fun rest => some (c :: rest)) = some cs := by
          rwa [List.mapM_cons] at hcs
        obtain ⟨rest, hrest, hcons⟩ := Option.bind_eq_some_iff.mp hbind
        obtain rfl := Option.some.inj hcons
        rw [ih hrest]
        rfl
  obtain ⟨cs, hcs, rfl⟩ := Option.map_eq_some_iff.mp h
  rw [ofString, String.toList_ofList, ofChars, ← hpoints hcs]

end Text.CodeText

theorem integerPart_eq_ok_iff {x : Float} {n : Int} :
    integerPart x = .ok n ↔ x.isNaN = false ∧ x.isInf = false ∧ truncate x = n := by
  unfold integerPart
  split_ifs with hnan hinf
  · exact iff_of_false (fun h => by cases h) fun h => Bool.false_ne_true (h.1.symm.trans hnan)
  · exact iff_of_false (fun h => by cases h) fun h => Bool.false_ne_true (h.2.1.symm.trans hinf)
  · rw [Except.ok.injEq]
    exact ⟨fun h => ⟨Bool.eq_false_of_not_eq_true hnan, Bool.eq_false_of_not_eq_true hinf, h⟩,
      fun h => h.2.2⟩

namespace Value

theorem looksIntegral_iff {cs : List Char} :
    looksIntegral (String.ofList cs) = true ↔
      ∃ signs ds, cs = List.replicate signs '-' ++ ds ∧ ds ≠ [] ∧ ∀ c ∈ ds, isDigit c = true := by
  rw [looksIntegral, String.toList_ofList]
  simp only [Bool.and_eq_true, Bool.not_eq_true', List.isEmpty_eq_false_iff, List.all_eq_true]
  constructor
  · rintro ⟨hne, hdigits⟩
    have hsigns : cs.takeWhile (· == '-') = List.replicate (cs.takeWhile (· == '-')).length '-' :=
      List.eq_replicate_of_mem fun c hc => by
        simpa using List.all_eq_true.mp List.all_takeWhile c hc
    refine ⟨(cs.takeWhile (· == '-')).length, _, ?_, hne, hdigits⟩
    rw [← hsigns, List.takeWhile_append_dropWhile]
  · rintro ⟨signs, ds, rfl, hne, hdigits⟩
    have hdrop : (List.replicate signs '-' ++ ds).dropWhile (· == '-') = ds := by
      rw [List.dropWhile_append_of_pos fun c hc => by simp [List.eq_of_mem_replicate hc]]
      cases ds with
      | nil => exact absurd rfl hne
      | cons d ds =>
        have hd : d ≠ '-' := by
          rintro rfl
          exact absurd (hdigits '-' List.mem_cons_self) (by decide)
        exact List.dropWhile_cons_of_neg (by simpa using hd)
    rw [hdrop]
    exact ⟨hne, hdigits⟩

/-- A text that is no run of signs and digits is no decimal form. -/
theorem looksIntegral_of_decimalForm {cs : List Char} {n : Int} (h : DecimalForm cs n) :
    looksIntegral (String.ofList cs) = true := by
  rw [looksIntegral_iff]
  cases h with
  | natural h => exact ⟨0, cs, rfl, h.nonempty, h.isDigit⟩
  | negative h hzero => exact ⟨1, _, rfl, h.nonempty, h.isDigit⟩

/-- A text that is no run of signs and digits is its own key. -/
theorem asKey_text_of_not_looksIntegral (next : Int) {s : CodeText}
    (h : ∀ cs, s = .ofChars cs → looksIntegral (String.ofList cs) = false) :
    asKey next (.text s) = .ok (.text s) ∧ (Value.text s).Normal (.text s) ∧ ¬ s.Unreadable := by
  refine ⟨?_, .text ?_, ?_⟩
  · cases hstr : s.string? with
    | none => simp [asKey, hstr]
    | some str =>
      have hs := CodeText.eq_ofString_of_string? hstr
      have hlooks := h str.toList hs
      rw [String.ofList_toList] at hlooks
      simp [asKey, hstr, hlooks]
  · rintro n ⟨cs, hs, hform⟩
    have hlooks := looksIntegral_of_decimalForm hform
    rw [h cs hs] at hlooks
    cases hlooks
  · rintro ⟨signs, ds, hs, hne, hdigits, -⟩
    have hlooks := looksIntegral_iff.mpr ⟨signs, ds, rfl, hne, hdigits⟩
    rw [h _ hs] at hlooks
    cases hlooks

/-- Signs and digits are read, and are that integer if they are its decimal form. -/
theorem asKey_text_digits (next : Int) {signs : Nat} {ds : List Char} (hne : ds ≠ [])
    (hdigits : ∀ c ∈ ds, isDigit c = true) {s : CodeText}
    (hs : s = .ofChars (List.replicate signs '-' ++ ds)) :
    (∃ key, asKey next (.text s) = .ok key ∧ (Value.text s).Normal key ∧ ¬ s.Unreadable) ∨
      asKey next (.text s) = .error (.notAnInteger s) ∧ s.Unreadable := by
  have hlooks := looksIntegral_iff.mpr ⟨signs, ds, rfl, hne, hdigits⟩
  have hread := readInteger?_eq_none_iff signs hne hdigits
  generalize hcs : List.replicate signs '-' ++ ds = cs at hs hlooks hread
  have hstr : s.string? = some (String.ofList cs) := by
    rw [hs, CodeText.ofChars_eq_ofString, CodeText.string?_ofString]
  have hkey : asKey next (.text s) = (do
      let n ← integerOfText s
      return if CodeText.ofString (decimalInt n) = s then .int n else .text s) := by
    simp only [asKey, hstr, Option.any_some, hlooks, if_true]
  cases hvalue : readInteger? 10 (String.ofList cs) with
  | none =>
    have hinteger : integerOfText s = .error (.notAnInteger s) := by
      simp only [integerOfText, hstr, Option.bind_some, hvalue]
    rw [hkey, hinteger]
    exact .inr ⟨rfl, signs, ds, by rw [hs, hcs], hne, hdigits, hread.mp hvalue⟩
  | some m =>
    have hinteger : integerOfText s = .ok m := by
      simp only [integerOfText, hstr, Option.bind_some, hvalue]
    rw [hkey, hinteger]
    have hreadable : ¬ s.Unreadable := by
      rintro ⟨signs', ds', hs', hne', hdigits', hunreadable⟩
      rw [← readInteger?_eq_none_iff signs' hne' hdigits'] at hunreadable
      rw [hs, CodeText.ofChars_inj] at hs'
      rw [← hs', hvalue] at hunreadable
      cases hunreadable
    refine .inl ⟨_, rfl, ?_, hreadable⟩
    by_cases hform : CodeText.ofString (decimalInt m) = s
    · rw [if_pos hform]
      exact .decimal ⟨_, hform.symm, decimalForm_iff.mpr rfl⟩
    · rw [if_neg hform]
      refine .text fun n hn => hform ?_
      obtain ⟨cs', hs', hn⟩ := hn
      rw [hs, CodeText.ofChars_inj] at hs'
      subst hs'
      rw [eq_of_readInteger?_decimalForm hn hvalue, hs, CodeText.ofString, decimalForm_iff.mp hn]

/-- A text has a key unless it is made of signs and digits that cannot be read. -/
theorem asKey_text (next : Int) (s : CodeText) :
    (∃ key, asKey next (.text s) = .ok key ∧ (Value.text s).Normal key ∧ ¬ s.Unreadable) ∨
      asKey next (.text s) = .error (.notAnInteger s) ∧ s.Unreadable := by
  by_cases h : ∃ signs ds, s = .ofChars (List.replicate signs '-' ++ ds) ∧ ds ≠ [] ∧
      ∀ c ∈ ds, isDigit c = true
  · obtain ⟨signs, ds, hs, hne, hdigits⟩ := h
    exact asKey_text_digits next hne hdigits hs
  · refine .inl ⟨_, asKey_text_of_not_looksIntegral next fun cs hs => ?_⟩
    refine Bool.eq_false_iff.mpr fun hlooks => ?_
    obtain ⟨signs, ds, rfl, hne, hdigits⟩ := looksIntegral_iff.mp hlooks
    exact h ⟨signs, ds, hs, hne, hdigits⟩

/-- What a written key gives. -/
theorem asKey_normal {next : Int} {v : Value} {key : Key} (h : v.asKey next = .ok key) :
    v = .null ∧ key = .int next ∨ v.Normal key := by
  cases v with
  | null => exact .inl ⟨rfl, (Except.ok.inj h).symm⟩
  | bool b =>
    cases h
    exact .inr (.bool b)
  | int n =>
    cases h
    exact .inr (.int n)
  | float x =>
    refine .inr ?_
    obtain ⟨n, hn, rfl⟩ := exists_ok_of_map h
    obtain ⟨hnan, hinf, rfl⟩ := integerPart_eq_ok_iff.mp hn
    exact .float hnan hinf
  | text s =>
    rcases asKey_text next s with ⟨key', hkey, hnormal, -⟩ | ⟨herror, -⟩
    · obtain rfl := Except.ok.inj (hkey.symm.trans h)
      exact .inr hnormal
    · rw [herror] at h
      cases h
  | list items => cases h
  | map entries => cases h

/-- A plain value gives a key unless it is a text that cannot be read. -/
theorem asKey_plain (next : Int) {v : Value} (h : v.IsPlain) :
    (∃ key, v.asKey next = .ok key ∧ ∀ s, v = .text s → ¬ s.Unreadable) ∨
      ∃ s, v = .text s ∧ v.asKey next = .error (.notAnInteger s) ∧ s.Unreadable := by
  have hother {key : Key} (hkey : v.asKey next = .ok key) (hne : ∀ s, v ≠ .text s) :
      ∃ key, v.asKey next = .ok key ∧ ∀ s, v = .text s → ¬ s.Unreadable :=
    ⟨key, hkey, fun s hs => absurd hs (hne s)⟩
  cases v with
  | null => exact .inl (hother rfl (by simp))
  | bool b => exact .inl (hother rfl (by simp))
  | int n => exact .inl (hother rfl (by simp))
  | float x =>
    have hkey : asKey next (.float x) = .ok (.int (truncate x)) := by
      rw [asKey, integerPart_eq_ok_iff.mpr ⟨h.1, h.2, rfl⟩]
      rfl
    exact .inl (hother hkey (by simp))
  | text s =>
    rcases asKey_text next s with ⟨key, hkey, -, hreadable⟩ | ⟨herror, hunreadable⟩
    · refine .inl ⟨key, hkey, ?_⟩
      rintro _ ⟨⟩
      exact hreadable
    · exact .inr ⟨s, rfl, herror, hunreadable⟩
  | list items => exact h.elim
  | map entries => exact h.elim

end Value

/-! ## Runs over the elements -/

section

variable {before : List (Option Value × Value)} {keys : List Key} {entries : Table Key Value}
  {next : Int}

/-- An element is filed under the key that its written key gives. -/
theorem Filed.concat (h : Filed before keys) (hnext : IsNext keys next) {k : Option Value} {v : Value}
    {key : Key} (hkey : (k.getD .null).asKey next = .ok key) :
    Filed (before ++ [(k, v)]) (keys ++ [key]) := by
  cases k with
  | none =>
    cases hkey
    exact .positional h hnext v
  | some k =>
    rcases Value.asKey_normal hkey with ⟨hnull, rfl⟩ | hnormal
    · obtain rfl : k = .null := hnull
      exact .null h hnext v
    · exact .keyed h hnormal v

/-- The entries that are made of all elements are those that these make. -/
theorem Collected.entriesFrom (h : Collected before keys entries) (hnext : IsNext keys next)
    {elements : List (Option Value × Value)} {result : Table Key Value}
    (hresult : Value.entriesFrom next entries elements = .ok result) :
    ∃ keys', Collected (before ++ elements) keys' result := by
  induction elements generalizing before keys entries next with
  | nil =>
    cases hresult
    exact ⟨keys, by rwa [List.append_nil]⟩
  | cons element elements ih =>
    obtain ⟨k, v⟩ := element
    obtain ⟨key, hkey, hrest⟩ := exists_ok_of_bind hresult
    have hstep := h.concat (k, v) (h.filed.concat hnext hkey)
    obtain ⟨keys', hkeys'⟩ := ih hstep (hnext.concat key) hrest
    exact ⟨keys', by rwa [List.append_cons]⟩

end

/-- The elements stand before and after one whose key is the first text that cannot be read. -/
def FirstUnreadable (elements : List (Option Value × Value)) (s : CodeText) : Prop :=
  ∃ before v after, elements = before ++ (some (.text s), v) :: after ∧ s.Unreadable ∧
    ∀ s' v', (some (.text s'), v') ∈ before → ¬ s'.Unreadable

/-- Elements with plain keys make a map unless a key is a text that cannot be read. -/
theorem entriesFrom_plain {elements : List (Option Value × Value)}
    (hplain : ∀ k v, (some k, v) ∈ elements → k.IsPlain) (next : Int) (entries : Table Key Value) :
    ((∃ result, Value.entriesFrom next entries elements = .ok result) ∧
        ∀ s v, (some (.text s), v) ∈ elements → ¬ s.Unreadable) ∨
      ∃ s, FirstUnreadable elements s ∧
        Value.entriesFrom next entries elements = .error (.notAnInteger s) := by
  induction elements generalizing next entries with
  | nil => exact .inl ⟨⟨entries, rfl⟩, by simp⟩
  | cons element elements ih =>
    obtain ⟨k, v⟩ := element
    have hkey : (∃ key, (k.getD .null).asKey next = .ok key ∧
          ∀ s, k = some (.text s) → ¬ s.Unreadable) ∨
        ∃ s, k = some (.text s) ∧ (k.getD .null).asKey next = .error (.notAnInteger s) ∧
          s.Unreadable := by
      cases k with
      | none => exact .inl ⟨.int next, rfl, by simp⟩
      | some k => simpa using Value.asKey_plain next (hplain k v List.mem_cons_self)
    rcases hkey with ⟨key, hkey, hreadable⟩ | ⟨s, rfl, herror, hunreadable⟩
    · have hstep : Value.entriesFrom next entries ((k, v) :: elements) =
          Value.entriesFrom (Value.nextAfter next key) (Table.insert entries key v) elements := by
        rw [Value.entriesFrom, hkey]
        rfl
      rw [hstep]
      rcases ih (fun k v hmem => hplain k v (List.mem_cons_of_mem _ hmem)) _ _ with
        ⟨hresult, hall⟩ | ⟨s, ⟨before, v', after, rfl, hunreadable, hbefore⟩, herror⟩
      · refine .inl ⟨hresult, fun s v' hmem => ?_⟩
        rcases List.mem_cons.mp hmem with heq | hmem
        · exact hreadable s (Prod.mk.inj heq).1.symm
        · exact hall s v' hmem
      · refine .inr ⟨s, ⟨(k, v) :: before, v', after, rfl, hunreadable, fun s' v'' hmem => ?_⟩, herror⟩
        rcases List.mem_cons.mp hmem with heq | hmem
        · exact hreadable s' (Prod.mk.inj heq).1.symm
        · exact hbefore s' v'' hmem
    · refine .inr ⟨s, ⟨[], v, elements, rfl, hunreadable, by simp⟩, ?_⟩
      rw [Value.entriesFrom, herror]
      rfl

/-! ## Arrays -/

/-- An array with a keyed element has a written key once its elements have values. -/
theorem exists_key_of_values {lookup : ConstantLookup} {els : List ArrayElement}
    {elements : List (Option Value × Value)} (h : ArrayElement.values lookup els = .ok elements)
    (hkeyed : ∃ key value, ArrayElement.keyed key value ∈ els) : ∃ k v, (some k, v) ∈ elements := by
  induction els generalizing elements with
  | nil => simp at hkeyed
  | cons el els ih =>
    obtain ⟨key, value, hmem⟩ := hkeyed
    cases el with
    | positional first =>
      obtain ⟨v, -, h⟩ := exists_ok_of_bind h
      obtain ⟨rest, hrest, ⟨⟩⟩ := exists_ok_of_bind h
      obtain ⟨k, w, hkw⟩ := ih hrest ⟨key, value, by simpa using hmem⟩
      exact ⟨k, w, List.mem_cons_of_mem _ hkw⟩
    | keyed first second =>
      obtain ⟨k, -, h⟩ := exists_ok_of_bind h
      obtain ⟨v, -, h⟩ := exists_ok_of_bind h
      obtain ⟨rest, -, ⟨⟩⟩ := exists_ok_of_bind h
      exact ⟨k, v, List.mem_cons_self⟩

theorem arrayOf_of_key {elements : List (Option Value × Value)} (h : ∃ k v, (some k, v) ∈ elements) :
    Value.arrayOf elements = (Value.entriesFrom 0 [] elements).map .map := by
  obtain ⟨k, v, hmem⟩ := h
  have hany : elements.any (·.1.isSome) = true := List.any_eq_true.mpr ⟨_, hmem, rfl⟩
  rw [Value.arrayOf, if_pos hany, Value.mapOf]

/-- The keys of an array that has a value. Every element is filed under the key that its written key
stands for, or under the next integer where it has none; the keys stand in the order in which they come
first, each with the value of the last element under it. -/
theorem evaluate_array_filed {lookup : ConstantLookup} {room : Nat} {ts : List Token}
    {els : List ArrayElement} (hspelled : (Expression.array els).SpelledBy ts)
    (hkeyed : ∃ key value, ArrayElement.keyed key value ∈ els) {v : Value}
    (h : evaluate lookup room ts = .ok v) :
    ∃ elements keys entries, ArrayElement.values lookup els = .ok elements ∧ v = .map entries ∧
      Collected elements keys entries := by
  obtain ⟨e, hspelled', -, hvalue⟩ := exists_spelledBy_of_evaluate h
  obtain rfl := hspelled.unique hspelled'
  obtain ⟨elements, hvalues, harray⟩ := exists_ok_of_bind hvalue
  rw [arrayOf_of_key (exists_key_of_values hvalues hkeyed)] at harray
  cases hentries : Value.entriesFrom 0 [] elements with
  | error fault =>
    rw [hentries] at harray
    cases harray
  | ok entries =>
    rw [hentries] at harray
    cases harray
    obtain ⟨keys, hkeys⟩ := collected_nil.entriesFrom isNext_nil hentries
    exact ⟨elements, keys, entries, hvalues, rfl, hkeys⟩

/-- The tokens of the elements of an array in brackets, separated by commas. -/
def arrayTokens (elements : List (List Token)) : List Token :=
  sign "[" :: (elements.intersperse [sign ","]).flatten ++ [sign "]"]
where
  /-- A sign by its text. -/
  sign (text : String) : Token := ⟨.punctuation, text, 1, 0⟩

/-- The array `['a', -3 => 'b', 'c', '7' => 'd', 'e']` skips to the integer after the greatest one. -/
theorem evaluate_array_filed_mixed :
    ∃ elements entries, evaluate (fun _ => none) 1 (arrayTokens [
          [⟨.stringLiteral, "'a'", 1, 0⟩],
          [⟨.punctuation, "-", 1, 0⟩, ⟨.numberLiteral, "3", 1, 0⟩, ⟨.punctuation, "=>", 1, 0⟩,
            ⟨.stringLiteral, "'b'", 1, 0⟩],
          [⟨.stringLiteral, "'c'", 1, 0⟩],
          [⟨.stringLiteral, "'7'", 1, 0⟩, ⟨.punctuation, "=>", 1, 0⟩, ⟨.stringLiteral, "'d'", 1, 0⟩],
          [⟨.stringLiteral, "'e'", 1, 0⟩]]) = .ok (.map entries) ∧
      Table.keys entries = [.int 0, .int (-3), .int 1, .int 7, .int 8] ∧
      ∃ keys, Collected elements keys entries := by
  generalize hts : arrayTokens _ = ts
  have hread : Expression.ofTokens 1 ts = .ok (.array [
      .positional (.string "'a'" 1),
      .keyed (.unary .negate 1 (.number "3")) (.string "'b'" 1),
      .positional (.string "'c'" 1),
      .keyed (.string "'7'" 1) (.string "'d'" 1),
      .positional (.string "'e'" 1)]) := by
    subst hts
    cbv
  have heval : evaluate (fun _ => none) 1 ts = .ok (.map [(.int 0, .text "a"), (.int (-3), .text "b"),
      (.int 1, .text "c"), (.int 7, .text "d"), (.int 8, .text "e")]) := by
    subst hts
    cbv
  obtain ⟨hspelled, -⟩ := Expression.ofTokens_eq_ok_iff.mp hread
  obtain ⟨elements, keys, entries, -, ⟨⟩, hcollected⟩ :=
    evaluate_array_filed hspelled ⟨_, _, List.mem_cons_of_mem _ List.mem_cons_self⟩ heval
  exact ⟨elements, _, heval, rfl, keys, hcollected⟩

/-- A written key is filed under the language's key unless it is null. -/
theorem Filed.namesKey_iff {elements : List (Option Value × Value)} {keys : List Key}
    (h : Filed elements keys) {k v : Value} {key : Key}
    (hmem : ((some k, v), key) ∈ elements.zip keys) : k.NamesKey key ↔ k ≠ .null := by
  induction h with
  | nil => simp at hmem
  | positional h hn w ih =>
    rw [List.zip_append h.length_eq, List.mem_append] at hmem
    rcases hmem with hmem | hmem
    · exact ih hmem
    · simp at hmem
  | null h hn w ih =>
    rw [List.zip_append h.length_eq, List.mem_append] at hmem
    rcases hmem with hmem | hmem
    · exact ih hmem
    · obtain ⟨⟨rfl, rfl⟩, rfl⟩ : (k = .null ∧ v = w) ∧ key = .int _ := by simpa using hmem
      simp only [ne_eq, not_true_eq_false, iff_false]
      rintro (_ | ⟨⟨⟩⟩)
  | keyed h hkey w ih =>
    rw [List.zip_append h.length_eq, List.mem_append] at hmem
    rcases hmem with hmem | hmem
    · exact ih hmem
    · obtain ⟨⟨rfl, rfl⟩, rfl⟩ : (k = _ ∧ v = w) ∧ key = _ := by simpa using hmem
      refine iff_of_true (.normal hkey) ?_
      rintro rfl
      cases hkey

/-- What written keys that are null, booleans, integers, finite doubles or texts make of an array whose
elements have values. The first text of digits that cannot be read leaves it without a value. Without
such a text it has one, and every written key is filed under the language's key, unless it is null: null
is filed like a missing key. -/
theorem evaluate_array_keys {lookup : ConstantLookup} {room : Nat} {ts : List Token}
    {els : List ArrayElement} (hspelled : (Expression.array els).SpelledBy ts)
    (hroom : (Expression.array els).nesting ≤ room) {elements : List (Option Value × Value)}
    (hvalues : ArrayElement.values lookup els = .ok elements)
    (hplain : ∀ k v, (some k, v) ∈ elements → k.IsPlain) :
    (∃ s, FirstUnreadable elements s ∧ evaluate lookup room ts = .error (.notAnInteger s)) ∨
      (∀ s v, (some (.text s), v) ∈ elements → ¬ s.Unreadable) ∧
        ∃ v, evaluate lookup room ts = .ok v ∧
          ((∃ k w, (some k, w) ∈ elements) →
            ∃ keys entries, v = .map entries ∧ Collected elements keys entries ∧
              ∀ k w key, ((some k, w), key) ∈ elements.zip keys → (k.NamesKey key ↔ k ≠ .null)) := by
  have heval : evaluate lookup room ts = Value.arrayOf elements := by
    rw [hspelled.evaluate_eq hroom, Expression.value, hvalues]
    rfl
  rw [heval]
  by_cases hkeyed : ∃ k w, (some k, w) ∈ elements
  · rw [arrayOf_of_key hkeyed]
    rcases entriesFrom_plain hplain 0 [] with ⟨⟨entries, hentries⟩, hreadable⟩ | ⟨s, hfirst, herror⟩
    · obtain ⟨keys, hkeys⟩ := collected_nil.entriesFrom isNext_nil hentries
      refine .inr ⟨hreadable, .map entries, by rw [hentries]; rfl, fun _ =>
        ⟨keys, entries, rfl, hkeys, fun k w key hmem => hkeys.filed.namesKey_iff hmem⟩⟩
    · exact .inl ⟨s, hfirst, by rw [herror]; rfl⟩
  · have hany : ¬ elements.any (·.1.isSome) = true := fun hany => by
      obtain ⟨⟨k, w⟩, hmem, hsome⟩ := List.any_eq_true.mp hany
      obtain ⟨k, rfl⟩ := Option.isSome_iff_exists.mp hsome
      exact hkeyed ⟨k, w, hmem⟩
    rw [Value.arrayOf, if_neg hany]
    exact .inr ⟨fun s w hmem => absurd ⟨_, w, hmem⟩ hkeyed, _, rfl, fun h => absurd h hkeyed⟩

/-- In `[null => 'x']` null is filed like a missing key, and `['--5' => 'x']` has no value. -/
theorem evaluate_array_keys_nullAndSigns :
    (∃ keys, Collected [(some .null, .text "x")] keys [(.int 0, .text "x")] ∧
        evaluate (fun _ => none) 1 (arrayTokens [[⟨.identifier, "null", 1, 0⟩,
          ⟨.punctuation, "=>", 1, 0⟩, ⟨.stringLiteral, "'x'", 1, 0⟩]]) =
            .ok (.map [(.int 0, .text "x")])) ∧
      FirstUnreadable [(some (.text "--5"), .text "x")] "--5" ∧
        evaluate (fun _ => none) 1 (arrayTokens [[⟨.stringLiteral, "'--5'", 1, 0⟩,
          ⟨.punctuation, "=>", 1, 0⟩, ⟨.stringLiteral, "'x'", 1, 0⟩]]) =
            .error (.notAnInteger "--5") := by
  generalize hts : arrayTokens [[⟨.identifier, "null", 1, 0⟩, _, _]] = ts
  generalize hts' : arrayTokens [[⟨.stringLiteral, "'--5'", 1, 0⟩, _, _]] = ts'
  have hread : Expression.ofTokens 1 ts = .ok (.array [.keyed (.word .null) (.string "'x'" 1)]) := by
    subst hts
    cbv
  have hread' : Expression.ofTokens 1 ts' =
      .ok (.array [.keyed (.string "'--5'" 1) (.string "'x'" 1)]) := by
    subst hts'
    cbv
  have heval : evaluate (fun _ => none) 1 ts = .ok (.map [(.int 0, .text "x")]) := by
    subst hts
    cbv
  have heval' : evaluate (fun _ => none) 1 ts' = .error (.notAnInteger "--5") := by
    subst hts'
    cbv
  obtain ⟨hspelled, hroom⟩ := Expression.ofTokens_eq_ok_iff.mp hread
  obtain ⟨hspelled', hroom'⟩ := Expression.ofTokens_eq_ok_iff.mp hread'
  have hvalues : ArrayElement.values (fun _ => none)
      [.keyed (.word .null) (.string "'x'" 1)] = .ok [(some .null, .text "x")] := by
    cbv
  have hvalues' : ArrayElement.values (fun _ => none)
      [.keyed (.string "'--5'" 1) (.string "'x'" 1)] = .ok [(some (.text "--5"), .text "x")] := by
    cbv
  have hnull := evaluate_array_keys hspelled hroom hvalues (by simp [Value.IsPlain])
  have hsigns := evaluate_array_keys hspelled' hroom' hvalues' (by simp [Value.IsPlain])
  rw [heval] at hnull
  rw [heval'] at hsigns
  refine ⟨?_, ?_, heval'⟩
  · rcases hnull with ⟨s, -, herror⟩ | ⟨-, v, ⟨⟩, hkeys⟩
    · cases herror
    · obtain ⟨keys, entries, ⟨⟩, hcollected, -⟩ := hkeys ⟨_, _, List.mem_cons_self⟩
      exact ⟨keys, hcollected, heval⟩
  · rcases hsigns with ⟨s, hfirst, ⟨⟩⟩ | ⟨-, v, hok, -⟩
    · exact hfirst
    · cases hok

end Reflection
