import Reflection.Table

/-!
# Entries of tables

What a table finds is an entry of it, and in a table with one entry a key every entry is found. A table
that is filled with entries one after the other has, under each key, the last one written.

## Main statements

* `Table.mem_of_find?`, `Table.find?_of_mem`: what is found, by the entries that there are.
* `Table.find?_insertAll`: reading after writing several entries.
* `Table.keys_insertAll`: the keys after writing several entries.
* `Table.insertAll_of_new`: new entries go to the end, in order.
* `Table.exists_ofEntries_block`: entries that are written side by side stay so.
* `Table.find?_eq_of_mem_iff`: what a list of entries finds, by the entries that there are.
* `Table.find?_perm`: entries in another order.
* `Table.eq_of_keys_of_find?`: a table is known by its keys, in order, and by what it finds.
-/
namespace Reflection.Table

variable {κ α β : Type} [DecidableEq κ]

theorem mem_of_find? {t : Table κ α} {key : κ} {v : α} (h : find? t key = some v) :
    (key, v) ∈ t := by
  induction t with
  | nil => cases h
  | cons e rest ih =>
    obtain ⟨k, w⟩ := e
    simp only [find?] at h
    split at h
    · rename_i hkey
      cases h
      rw [hkey]
      exact List.mem_cons_self ..
    · exact List.mem_cons_of_mem _ (ih h)

theorem mem_insert {t : Table κ α} {key : κ} {v : α} {e : κ × α} (h : e ∈ insert t key v) :
    e = (key, v) ∨ e ∈ t := by
  induction t with
  | nil => exact .inl (List.mem_singleton.mp h)
  | cons entry rest ih =>
    obtain ⟨k, w⟩ := entry
    simp only [insert] at h
    split at h
    · rename_i hkey
      rw [hkey] at h
      rcases List.mem_cons.mp h with rfl | h
      · exact .inl rfl
      · exact .inr (List.mem_cons_of_mem _ h)
    · rcases List.mem_cons.mp h with rfl | h
      · exact .inr (List.mem_cons_self ..)
      · exact (ih h).imp id (List.mem_cons_of_mem _)

theorem find?_of_mem {t : Table κ α} {key : κ} {v : α} (hnodup : (keys t).Nodup)
    (h : (key, v) ∈ t) : find? t key = some v := by
  induction t with
  | nil => cases h
  | cons e rest ih =>
    obtain ⟨k, w⟩ := e
    obtain ⟨hnotin, hrest⟩ := List.nodup_cons.mp hnodup
    rcases List.mem_cons.mp h with heq | h
    · cases heq
      exact if_pos rfl
    · have hne : k ≠ key := by
        rintro rfl
        exact hnotin (List.mem_map.mpr ⟨(k, v), h, rfl⟩)
      exact (if_neg hne).trans (ih hrest h)

theorem find?_append (t t' : Table κ α) (key : κ) :
    find? (t ++ t') key = (find? t key).or (find? t' key) := by
  induction t with
  | nil => rfl
  | cons e rest ih =>
    obtain ⟨k, v⟩ := e
    by_cases h : k = key
    · simp [find?, h]
    · simpa [find?, h] using ih

/-- After several entries were written, the last one under a key counts. -/
theorem find?_insertAll (t : Table κ α) (entries : List (κ × α)) (key : κ) :
    find? (insertAll t entries) key = (find? entries.reverse key).or (find? t key) := by
  induction entries generalizing t with
  | nil => rfl
  | cons e rest ih =>
    obtain ⟨k, v⟩ := e
    have hstep : insertAll t ((k, v) :: rest) = insertAll (insert t k v) rest := rfl
    rw [hstep, ih, find?_insert, List.reverse_cons, find?_append, Option.or_assoc]
    by_cases h : k = key
    · simp [find?, h]
    · simp [find?, h]

theorem find?_ofEntries (entries : List (κ × α)) (key : κ) :
    find? (ofEntries entries) key = find? entries.reverse key :=
  (find?_insertAll [] entries key).trans Option.or_none

theorem isSome_find?_iff (t : Table κ α) (key : κ) : (find? t key).isSome = true ↔ key ∈ keys t :=
  contains_iff_mem_keys t key

theorem find?_eq_none_iff (t : Table κ α) (key : κ) : find? t key = none ↔ key ∉ keys t := by
  rw [← isSome_find?_iff, Bool.not_eq_true, Option.isSome_eq_false_iff, Option.isNone_iff_eq_none]

theorem mem_keys_ofEntries_iff (entries : List (κ × α)) (key : κ) :
    key ∈ keys (ofEntries entries) ↔ key ∈ keys entries := by
  rw [← isSome_find?_iff, find?_ofEntries, isSome_find?_iff, keys, List.map_reverse, List.mem_reverse, keys]

/-- What is found under a key is known once the values are known that stand under it. -/
theorem find?_eq_of_mem_iff {t : Table κ α} {key : κ} {found : Option α}
    (h : ∀ v, (key, v) ∈ t ↔ found = some v) : find? t key = found := by
  cases hfind : find? t key with
  | some v => exact ((h v).mp (mem_of_find? hfind)).symm
  | none =>
    rw [find?_eq_none_iff] at hfind
    cases found with
    | none => rfl
    | some v => exact absurd (List.mem_map_of_mem ((h v).mpr rfl)) hfind

/-- Where no key comes twice, the order of the entries does not matter to what is found. -/
theorem find?_perm {t t' : Table κ α} (h : t'.Perm t) (hnodup : (keys t).Nodup) (key : κ) :
    find? t' key = find? t key :=
  find?_eq_of_mem_iff fun _ => h.mem_iff.trans ⟨find?_of_mem hnodup, mem_of_find?⟩

theorem find?_reverse {t : Table κ α} (hnodup : (keys t).Nodup) (key : κ) :
    find? t.reverse key = find? t key :=
  find?_perm t.reverse_perm hnodup key

/-- Two tables with the same keys in the same order that find the same are the same. -/
theorem eq_of_keys_of_find? {t t' : Table κ α} (hnodup : (keys t).Nodup) (hkeys : keys t = keys t')
    (hfind : ∀ key, find? t key = find? t' key) : t = t' := by
  induction t generalizing t' with
  | nil =>
    symm
    simpa [keys] using hkeys
  | cons e rest ih =>
    obtain ⟨k, v⟩ := e
    cases t' with
    | nil => simp [keys] at hkeys
    | cons e' rest' =>
      obtain ⟨k', v'⟩ := e'
      obtain ⟨rfl, hrest⟩ : k = k' ∧ keys rest = keys rest' := by simpa [keys] using hkeys
      obtain ⟨hnotin, hnodup⟩ := List.nodup_cons.mp hnodup
      have hvalue : v = v' := by simpa [find?] using hfind k
      have hrests : rest = rest' := by
        refine ih hnodup hrest fun key => ?_
        by_cases hkey : k = key
        · subst hkey
          rw [(find?_eq_none_iff rest k).mpr hnotin, (find?_eq_none_iff rest' k).mpr (hrest ▸ hnotin)]
        · simpa [find?, hkey] using hfind key
      rw [hvalue, hrests]

/-! ## Keys -/

theorem nodup_keys_insert {t : Table κ α} (h : (keys t).Nodup) (key : κ) (value : α) :
    (keys (insert t key value)).Nodup := by
  rw [keys_insert]
  by_cases hmem : key ∈ keys t
  · rwa [if_pos hmem]
  · rw [if_neg hmem]
    refine List.nodup_append.mpr ⟨h, List.pairwise_singleton _ _, fun k hk k' hk' heq => hmem ?_⟩
    rwa [← List.mem_singleton.mp hk', ← heq]

theorem nodup_keys_insertAll {t : Table κ α} (h : (keys t).Nodup) (entries : List (κ × α)) :
    (keys (insertAll t entries)).Nodup := by
  induction entries generalizing t with
  | nil => exact h
  | cons e rest ih => exact ih (nodup_keys_insert h e.1 e.2)

theorem eraseDups_concat {κ : Type} [BEq κ] [LawfulBEq κ] (keys : List κ) (key : κ) :
    (keys ++ [key]).eraseDups = if key ∈ keys then keys.eraseDups else keys.eraseDups ++ [key] := by
  rw [List.eraseDups_append]
  by_cases hmem : key ∈ keys <;> simp [List.removeAll, List.eraseDups_cons, hmem]

/-- Keys that are written go to the end unless they are present. -/
theorem keys_insertAll (t : Table κ α) {entries : Table κ α} (hnodup : (keys entries).Nodup) :
    keys (insertAll t entries) = keys t ++ (keys entries).filter (· ∉ keys t) := by
  induction entries generalizing t with
  | nil => exact (List.append_nil _).symm
  | cons e rest ih =>
    obtain ⟨k, v⟩ := e
    obtain ⟨hnotin, hnodup⟩ := List.nodup_cons.mp hnodup
    have hstep : keys (insertAll t ((k, v) :: rest)) = keys (insertAll (insert t k v) rest) := rfl
    have hkeys : keys ((k, v) :: rest) = k :: keys rest := rfl
    rw [hstep, hkeys, ih _ hnodup, keys_insert]
    by_cases hmem : k ∈ keys t
    · rw [if_pos hmem, List.filter_cons_of_neg (by simpa using hmem)]
    · have hrest : (keys rest).filter (· ∉ keys t ++ [k]) = (keys rest).filter (· ∉ keys t) := by
        refine List.filter_congr fun k' hk' => ?_
        have hne : k' ≠ k := ne_of_mem_of_not_mem hk' hnotin
        simp [hne]
      rw [if_neg hmem, List.filter_cons_of_pos (by simpa using hmem), hrest, List.append_assoc]
      rfl

/-! ## Places of entries -/

theorem insert_append (t t' : Table κ α) (key : κ) (value : α) :
    insert (t ++ t') key value =
      if key ∈ keys t then insert t key value ++ t' else t ++ insert t' key value := by
  induction t with
  | nil => rfl
  | cons e rest ih =>
    obtain ⟨k, v⟩ := e
    by_cases hkey : k = key
    · simp [insert, keys, hkey]
    · have hmem : key ∈ keys ((k, v) :: rest) ↔ key ∈ keys rest := by
        simp [keys, Ne.symm hkey]
      rw [List.cons_append, insert, if_neg hkey, ih]
      by_cases hrest : key ∈ keys rest
      · rw [if_pos hrest, if_pos (hmem.mpr hrest), insert, if_neg hkey]
        rfl
      · rw [if_neg hrest, if_neg (hrest ∘ hmem.mp)]
        rfl

theorem insertAll_append (t : Table κ α) (entries entries' : List (κ × α)) :
    insertAll t (entries ++ entries') = insertAll (insertAll t entries) entries' :=
  List.foldl_append

/-- Entries with new keys go to the end, in order. -/
theorem insertAll_of_new (t : Table κ α) {entries : Table κ α} (hnodup : (keys entries).Nodup)
    (hnew : ∀ key ∈ keys entries, key ∉ keys t) : insertAll t entries = t ++ entries := by
  induction entries generalizing t with
  | nil => exact (List.append_nil t).symm
  | cons e rest ih =>
    obtain ⟨k, v⟩ := e
    obtain ⟨hnotin, hnodup⟩ := List.nodup_cons.mp hnodup
    obtain ⟨hk, hrest⟩ : k ∉ keys t ∧ ∀ key ∈ keys rest, key ∉ keys t := List.forall_mem_cons.mp hnew
    have hinsert : insert t k v = t ++ [(k, v)] := by
      have happend := insert_append t [] k v
      rwa [List.append_nil, if_neg hk] at happend
    have hstep : insertAll t ((k, v) :: rest) = insertAll (insert t k v) rest := rfl
    rw [hstep, hinsert, ih _ hnodup, List.append_assoc]
    · rfl
    · intro key hkey hmem
      rw [keys, List.map_append] at hmem
      rcases List.mem_append.mp hmem with hmem | hmem
      · exact hrest key hkey hmem
      · rw [List.mem_singleton.mp hmem] at hkey
        exact hnotin hkey

/-- Writing other keys leaves entries that stand side by side. -/
theorem exists_insertAll_block (first block last : Table κ α) {entries : List (κ × α)}
    (hother : ∀ e ∈ entries, e.1 ∉ keys block) :
    ∃ first' last', insertAll (first ++ block ++ last) entries = first' ++ block ++ last' := by
  induction entries generalizing first last with
  | nil => exact ⟨first, last, rfl⟩
  | cons e rest ih =>
    obtain ⟨he, hrest⟩ := List.forall_mem_cons.mp hother
    have hstep : insertAll (first ++ block ++ last) (e :: rest) =
        insertAll (insert (first ++ (block ++ last)) e.1 e.2) rest := by
      rw [← List.append_assoc]
      rfl
    rw [hstep, insert_append, insert_append, if_neg he]
    by_cases hfirst : e.1 ∈ keys first
    · rw [if_pos hfirst, ← List.append_assoc]
      exact ih _ last hrest
    · rw [if_neg hfirst, ← List.append_assoc]
      exact ih first _ hrest

/-- Entries that are written once stand side by side as they were written. -/
theorem exists_ofEntries_block (before after : List (κ × α)) {entries : Table κ α}
    (hnodup : (keys entries).Nodup) (hother : ∀ e ∈ before ++ after, e.1 ∉ keys entries) :
    ∃ first last, ofEntries (before ++ entries ++ after) = first ++ entries ++ last := by
  obtain ⟨hbefore, hafter⟩ := List.forall_mem_append.mp hother
  have hnew : ∀ key ∈ keys entries, key ∉ keys (ofEntries before) := by
    intro key hkey hmem
    obtain ⟨e, he, rfl⟩ := List.mem_map.mp ((mem_keys_ofEntries_iff before key).mp hmem)
    exact hbefore e he hkey
  have hblock := exists_insertAll_block (ofEntries before) entries [] hafter
  rwa [List.append_nil, ← insertAll_of_new _ hnodup hnew, ofEntries, ← insertAll_append,
    ← insertAll_append, ← List.append_assoc] at hblock

/-- In a list that is put together from parts, the first part that has a key counts. -/
theorem find?_flatMap (parts : List β) (entries : β → Table κ α) (key : κ) :
    find? (parts.flatMap entries) key = parts.findSome? fun part => find? (entries part) key := by
  induction parts with
  | nil => rfl
  | cons part rest ih =>
    rw [List.flatMap_cons, find?_append, ih, List.findSome?_cons]
    cases find? (entries part) key <;> rfl

end Reflection.Table
