import Reflection.Name.Resolution
import Reflection.Proofs.Declaration.Resolution
import Reflection.Proofs.Declaration.WellFormed
import Reflection.Proofs.Table

/-!
# Imports by alias

An index keeps imports under the imported names, each with its alias, and turns them round where an alias
is asked for. So a name that is imported again under another alias is no longer known under the first
one.

## Main definitions

* `importClauses`: the imports of a stream.
* `UseClause.lastAlias?`: the alias of the last import of a name.

## Main statements

* `importClauses_program`: the imports of a structured program are those of its statements.
* `value?_useKind_of_scan`: an index has the last alias of each imported name.
* `find?_imports_of_scan`: what an alias stands for.
* `imports_of_scan`: every alias stands for its name just where no name is imported twice.
-/
namespace Reflection

open Token

/-! ## The imports of a stream -/

/-- The imports of a stream, in order. -/
def importClauses (tokens : List Token) : List UseClause :=
  (statements tokens (Traversal.events tokens)).flatMap fun s =>
    if s.token.kind = .useKeyword then (readUse s.token.line (tokensAfter tokens s.token)).items
    else []

/-- The imports of an item. -/
def Placed.importClauses (x : Placed) : List UseClause :=
  match x.item with
  | .imports u => u.clauses.toList.map ImportClause.clause
  | _ => []

/-- The imports of a structured program are those of its statements. -/
theorem importClauses_program (p : Program) (hnumbered : Numbered 0 p.tokens) :
    importClauses p.tokens = p.placed.flatMap Placed.importClauses := by
  rw [importClauses, p.statements_events hnumbered, List.flatMap_assoc]
  refine List.flatMap_congr fun x hx => ?_
  obtain ⟨front, back, htokens, -, -⟩ := p.exists_place hnumbered hx
  cases hitem : x.item with
  | braced b => simp [Placed.statements, Placed.importClauses, hitem]
  | constants c => simp [Placed.statements, Placed.importClauses, hitem, c.keyword_kind]
  | imports u =>
    have hhead : x.item.tokens = u.keyword :: u.tokens.tail := by
      rw [hitem]
      rfl
    simp [Placed.statements, Placed.importClauses, hitem, u.keyword_kind,
      (p.around_keyword hnumbered hhead htokens).2, readUse_eq]

/-- The import that is listed. -/
def Listing.importClause? (l : Listing) : Option UseClause :=
  match l.declaration.kind, l.meaning with
  | .useKind, .text localName => some ⟨l.declaration.name, localName⟩
  | _, _ => none

theorem filterMap_streamListings (tokens : List Token) :
    (streamListings tokens).filterMap Listing.importClause? = importClauses tokens := by
  have hnamespaces (closed : List Scope) :
      (namespaceListings tokens closed).filterMap Listing.importClause? = [] := by
    refine List.filterMap_eq_nil_iff.mpr fun l hl => ?_
    obtain ⟨keyword, s, -, rfl⟩ := exists_of_mem_namespaceListings hl
    rfl
  have hsymbols : (symbolListings tokens).filterMap Listing.importClause? = [] := by
    refine List.filterMap_eq_nil_iff.mpr fun l hl => ?_
    rw [Listing.importClause?, (wellSorted_symbolListings l hl).2]
    split <;> simp_all
  rw [streamListings, fileListings, List.filterMap_append, List.filterMap_append, hnamespaces,
    hsymbols, List.append_nil, List.nil_append, List.filterMap_flatMap, importClauses]
  refine List.flatMap_congr fun s _ => ?_
  unfold statementListings
  split_ifs
  · rw [useListings, List.filterMap_map]
    exact List.filterMap_some
  · refine List.filterMap_eq_nil_iff.mpr fun l hl => ?_
    obtain ⟨d, -, rfl⟩ := List.mem_map.mp hl
    rfl

/-! ## Aliases -/

theorem isAbsolute_of_readAlias {line : Int} {name localName : String} {rest left : List Token}
    (h : readAlias line name rest = .ok (localName, left)) : Name.isAbsolute localName = false := by
  unfold readAlias at h
  dsimp only at h
  split at h
  · split at h
    · rename_i t after _
      split at h
      · rename_i hidentifier
        cases h
        exact Name.isAbsolute_of_isLabel (Bool.and_eq_true_iff.mp hidentifier).2
      · cases h
    · cases h
  · cases h
    exact Name.isAbsolute_localPart name

/-- No alias begins with a separator. -/
theorem isAbsolute_of_mem_useClauses {line : Int} {rest : List Token} {c : UseClause}
    (h : c ∈ (useClauses line rest).items) : Name.isAbsolute c.localName = false := by
  induction hlength : rest.length using Nat.strongRecOn generalizing rest with
  | _ n ih =>
  have htake := length_takeNameTokens false rest
  rw [useClauses_first] at h
  split at h
  · cases h
  · split at h
    · cases h
    · rename_i localName left hread
      have hleft := length_readAlias hread
      have halias := isAbsolute_of_readAlias hread
      split at h
      · rename_i hcomma
        rcases List.mem_cons.mp h with rfl | h
        · exact halias
        · refine ih _ ?_ h rfl
          cases left with
          | nil => cases hcomma
          | cons t after =>
            have hskip := length_skipIgnorable after
            simp only [List.length_cons, List.tail_cons] at hleft ⊢
            omega
      · rw [List.mem_singleton.mp h]
        exact halias

theorem isAbsolute_of_mem_importClauses {tokens : List Token} {c : UseClause}
    (h : c ∈ importClauses tokens) : Name.isAbsolute c.localName = false := by
  obtain ⟨s, -, h⟩ := List.mem_flatMap.mp h
  split_ifs at h
  · exact isAbsolute_of_mem_useClauses h
  · cases h

/-- Images in a list are distinct where none of them comes again later. -/
theorem nodup_map_iff {α β : Type} {f : α → β} (xs : List α) :
    (xs.map f).Nodup ↔ ∀ before x after, xs = before ++ x :: after → f x ∉ after.map f := by
  constructor
  · rintro hnodup before x after rfl
    rw [List.map_append, List.map_cons] at hnodup
    exact (List.nodup_cons.mp hnodup.of_append_right).1
  · intro h
    induction xs with
    | nil => exact List.nodup_nil
    | cons x rest ih =>
      refine List.nodup_cons.mpr ⟨h [] x rest rfl, ih fun before y after hsplit => ?_⟩
      exact h (x :: before) y after (congrArg (x :: ·) hsplit)

namespace UseClause

/-- The alias of the last import of a name. -/
def lastAlias? (clauses : List UseClause) (name : String) : Option String :=
  (clauses.reverse.find? (·.name == name)).map UseClause.localName

variable {clauses before after : List UseClause} {c : UseClause} {name localName : String}

theorem lastAlias?_append (clauses clauses' : List UseClause) (name : String) :
    lastAlias? (clauses ++ clauses') name =
      (lastAlias? clauses' name).or (lastAlias? clauses name) := by
  rw [lastAlias?, List.reverse_append, List.find?_append, Option.map_or]
  rfl

theorem lastAlias?_singleton (c : UseClause) (name : String) :
    lastAlias? [c] name = if c.name = name then some c.localName else none := by
  by_cases hname : c.name = name <;> simp [lastAlias?, hname]

theorem lastAlias?_eq_none_iff : lastAlias? clauses name = none ↔ ∀ c ∈ clauses, c.name ≠ name := by
  simp [lastAlias?]

theorem exists_of_lastAlias? (h : lastAlias? clauses name = some localName) :
    ∃ c ∈ clauses, c.name = name ∧ c.localName = localName := by
  obtain ⟨c, hc, rfl⟩ := Option.map_eq_some_iff.mp h
  have hname : c.name = name := by simpa using List.find?_some hc
  exact ⟨c, List.mem_reverse.mp (List.mem_of_find?_eq_some hc), hname, rfl⟩

/-- Where no two aliases are the same, one is the last of a name just where it was given to this name,
and no later import is one of the name. -/
theorem lastAlias?_eq_some_iff
    (hdistinct : ((before ++ c :: after).map UseClause.localName).Nodup) :
    lastAlias? (before ++ c :: after) name = some c.localName ↔
      c.name = name ∧ ∀ d ∈ after, d.name ≠ name := by
  have hc : c ∈ before ++ c :: after := by simp
  have hself {d : UseClause} (hd : d ∈ before ++ c :: after) (h : d.localName = c.localName) : d = c :=
    List.inj_on_of_nodup_map hdistinct hd hc h
  have hsplit : lastAlias? (before ++ c :: after) name =
      ((lastAlias? after name).or (if c.name = name then some c.localName else none)).or
        (lastAlias? before name) := by
    rw [← List.singleton_append, lastAlias?_append, lastAlias?_append, lastAlias?_singleton]
  constructor
  · intro hlast
    obtain ⟨d, hd, hname, halias⟩ := exists_of_lastAlias? hlast
    rw [hself hd halias] at hname
    refine ⟨hname, lastAlias?_eq_none_iff.mp ?_⟩
    cases hafter : lastAlias? after name with
    | none => rfl
    | some localName =>
      -- A later import of the name would have the same alias, so it would be the same import.
      rw [hsplit, hafter, Option.some_or, Option.some_or, Option.some.injEq] at hlast
      obtain ⟨e, he, -, rfl⟩ := exists_of_lastAlias? hafter
      rw [hself (by simp [he]) hlast] at he
      exact absurd (List.mem_map_of_mem he) ((nodup_map_iff _).mp hdistinct before c after rfl)
  · rintro ⟨hname, hlater⟩
    rw [hsplit, lastAlias?_eq_none_iff.mpr hlater, Option.none_or, if_pos hname, Option.some_or]

end UseClause

/-! ## Imports in an index -/

namespace DeclarationIndex

variable {index : DeclarationIndex} {kind : DeclarationKind} {name localName : String}

/-- Adding a declaration changes what an imported name stands for only where it imports the name. -/
theorem value?_useKind_add (index : DeclarationIndex) (d : Declaration) (definition : Definition)
    (name : String) : (index.add d definition).1.value? .useKind name =
      if d.kind = .useKind ∧ d.name = name then some definition else index.value? .useKind name := by
  have hkind : DeclarationKind.useKind ≠ .namespaceKind := by decide
  rw [value?, value?, find?_add, if_neg hkind, apply_ite (Option.map Prod.fst)]
  simp only [Prod.mk.injEq, Option.map_some]

theorem mem_elements_iff (h : index.Distinct) {v : Definition} :
    (name, v) ∈ index.elements kind ↔ index.value? kind name = some v := by
  rw [value?, Option.map_eq_some_iff, elements, List.mem_map]
  constructor
  · rintro ⟨⟨found, definition, d⟩, hmem, heq⟩
    cases heq
    obtain ⟨⟨key, entry⟩, hentry, hkind⟩ := List.mem_filterMap.mp hmem
    dsimp only at hkind
    split_ifs at hkind with hkey
    cases hkind
    obtain rfl := hkey
    exact ⟨_, Table.find?_of_mem h hentry, rfl⟩
  · rintro ⟨⟨definition, d⟩, hfind, rfl⟩
    exact ⟨(name, definition, d),
      List.mem_filterMap.mpr ⟨_, Table.mem_of_find? hfind, if_pos rfl⟩, rfl⟩

/-- What an alias stands for is known once the names are known that have it. -/
theorem find?_imports (h : index.Distinct) {found : Option String}
    (hfound : ∀ name, index.value? .useKind name = some (.text localName) ↔ found = some name) :
    Table.find? index.imports localName = found := by
  rw [imports, Table.find?_ofEntries]
  refine Table.find?_eq_of_mem_iff fun name => ?_
  rw [← hfound, ← mem_elements_iff h, List.mem_reverse, List.mem_filterMap]
  constructor
  · rintro ⟨⟨key, v⟩, hmem, hentry⟩
    split at hentry
    · rename_i heq
      cases heq
      cases hentry
      exact hmem
    · cases hentry
  · intro hmem
    exact ⟨_, hmem, rfl⟩

end DeclarationIndex

section

variable {index : DeclarationIndex} {registry : Option SymbolRegistry}
  {kinds : Option (List DeclarationKind)} {lookup : LookupOptions} {localName name : String}

/-- An alias that is known is resolved to the name that it stands for. -/
theorem Name.qualify_of_imported (habsolute : Name.isAbsolute localName = false)
    (h : Table.find? index.imports localName = some name) :
    Name.qualify index registry localName kinds lookup = .ok name := by
  simp [Name.qualify, habsolute, h]

/-- A relative name that is no alias is resolved to itself or to a name in one of the namespaces. -/
theorem Name.mem_candidates_of_qualify (habsolute : Name.isAbsolute localName = false)
    (hnone : Table.find? index.imports localName = none)
    (h : Name.qualify index registry localName kinds lookup = .ok name) :
    name ∈ Name.candidates index lookup localName := by
  simp only [Name.qualify, habsolute, hnone, Bool.false_eq_true, if_false] at h
  split at h
  · rename_i found hfound
    cases h
    exact List.mem_of_find?_eq_some hfound
  · split at h
    · rename_i found hfound
      cases h
      obtain ⟨r, -, hr⟩ := Option.bind_eq_some_iff.mp hfound
      exact List.mem_of_find?_eq_some hr
    · cases h

end

section

variable {options : ScanOptions} {tokens : List Token} {index last : DeclarationIndex}

/-- What is listed either imports nothing or stands for the alias of an import. -/
theorem Listing.importClause?_cases {l : Listing} {definition : Definition} (hsorted : l.WellSorted)
    (h : (l.define options index).outcome = .ok definition) :
    (l.declaration.kind ≠ .useKind ∧ l.importClause? = none) ∨
      ∃ localName, l.declaration.kind = .useKind ∧ definition = .text localName ∧
        l.importClause? = some ⟨l.declaration.name, localName⟩ := by
  unfold Listing.WellSorted at hsorted
  unfold Listing.define at h
  unfold Listing.importClause?
  cases hmeaning : l.meaning with
  | text s =>
    rw [hmeaning] at hsorted h
    cases h
    rcases hsorted with hkind | hkind
    · exact .inl (by simp [hkind])
    · exact .inr ⟨s, hkind, rfl, by rw [hkind]⟩
  | constant space d =>
    rw [hmeaning] at hsorted
    exact .inl (by simp [show l.declaration.kind = .constKind from hsorted])
  | symbol =>
    rw [hmeaning] at hsorted
    refine .inl ⟨?_, by simp⟩
    rintro hkind
    simp [hkind, scopedKinds] at hsorted

/-- Filing declarations leaves the last alias of an imported name. -/
theorem value?_useKind_fileAll {listings : List Listing} (hsorted : ∀ l ∈ listings, l.WellSorted)
    (h : (fileAll options index listings).outcome = .ok last) (name : String) :
    last.value? .useKind name =
      ((UseClause.lastAlias? (listings.filterMap Listing.importClause?) name).map Definition.text).or
        (index.value? .useKind name) := by
  induction listings generalizing index with
  | nil =>
    cases h
    rfl
  | cons l rest ih =>
    obtain ⟨definition, hdefinition, h⟩ := (fileAll_cons_eq_ok_iff options).mp h
    rw [ih (fun l' hl' => hsorted l' (List.mem_cons_of_mem _ hl')) h,
      DeclarationIndex.value?_useKind_add]
    obtain ⟨hkind, hclause⟩ | ⟨localName, hkind, rfl, hclause⟩ :=
      Listing.importClause?_cases (hsorted l (List.mem_cons_self ..)) hdefinition
    · rw [List.filterMap_cons_none hclause, if_neg fun h => hkind h.1]
    · rw [List.filterMap_cons_some hclause, ← List.singleton_append, UseClause.lastAlias?_append,
        UseClause.lastAlias?_singleton, Option.map_or, Option.or_assoc]
      simp only [hkind, true_and]
      split_ifs <;> rfl

/-- An index has the last alias of each imported name. -/
theorem value?_useKind_of_scan (h : (scan options tokens).outcome = .ok index) (name : String) :
    index.value? .useKind name =
      (UseClause.lastAlias? (importClauses tokens) name).map Definition.text := by
  rw [outcome_scan_of_completed h options] at h
  rw [value?_useKind_fileAll wellSorted_streamListings h, filterMap_streamListings]
  exact Option.or_none

/-- A name that begins with a separator is no alias. -/
theorem find?_imports_of_isAbsolute (h : (scan options tokens).outcome = .ok index) {name : String}
    (habsolute : Name.isAbsolute name = true) : Table.find? index.imports name = none := by
  refine DeclarationIndex.find?_imports
    (scan_keeps List.nodup_nil DeclarationIndex.keptBy_distinct h) fun imported => ?_
  refine iff_of_false (fun hvalue => ?_) nofun
  rw [value?_useKind_of_scan h, Option.map_eq_some_iff] at hvalue
  obtain ⟨localName, hlast, heq⟩ := hvalue
  cases heq
  obtain ⟨c, hc, -, rfl⟩ := UseClause.exists_of_lastAlias? hlast
  rw [isAbsolute_of_mem_importClauses hc] at habsolute
  cases habsolute

/-- What an alias stands for: the name that it was given to, unless this name is imported again later. -/
theorem find?_imports_of_scan (h : (scan options tokens).outcome = .ok index)
    (hdistinct : ((importClauses tokens).map UseClause.localName).Nodup)
    {before after : List UseClause} {c : UseClause}
    (hclauses : importClauses tokens = before ++ c :: after) :
    Table.find? index.imports c.localName =
      if c.name ∈ after.map UseClause.name then none else some c.name := by
  have hlater : c.name ∈ after.map UseClause.name ↔ ¬∀ d ∈ after, d.name ≠ c.name := by
    simp
  refine DeclarationIndex.find?_imports
    (scan_keeps List.nodup_nil DeclarationIndex.keptBy_distinct h) fun name => ?_
  rw [hclauses] at hdistinct
  rw [value?_useKind_of_scan h, Option.map_eq_some_iff]
  simp only [Definition.text.injEq, exists_eq_right]
  rw [hclauses, UseClause.lastAlias?_eq_some_iff hdistinct]
  split_ifs with hmem
  · refine iff_of_false ?_ (by simp)
    rintro ⟨rfl, hnone⟩
    exact hlater.mp hmem hnone
  · rw [Option.some.injEq]
    refine ⟨And.left, ?_⟩
    rintro rfl
    exact ⟨rfl, not_not.mp fun hnone => hmem (hlater.mpr hnone)⟩

/-- Where no two aliases are the same, an alias stands for the name that it was given to just where this
name is not imported again later. Otherwise the alias is lost, and it is only looked for among the
declarations and the registered types. So every alias stands for its name just where no name is imported
twice. -/
theorem imports_of_scan (h : (scan options tokens).outcome = .ok index)
    (hdistinct : ((importClauses tokens).map UseClause.localName).Nodup) :
    (∀ before c after, importClauses tokens = before ++ c :: after →
      if c.name ∈ after.map UseClause.name then
        c.localName ∉ Table.keys index.imports ∧
          ∀ registry kinds lookup name,
            Name.qualify index registry c.localName kinds lookup = .ok name →
            name ∈ Name.candidates index lookup c.localName
      else
        Table.find? index.imports c.localName = some c.name ∧
          ∀ registry kinds lookup,
            Name.qualify index registry c.localName kinds lookup = .ok c.name) ∧
      ((∀ c ∈ importClauses tokens, Table.find? index.imports c.localName = some c.name) ↔
        ((importClauses tokens).map UseClause.name).Nodup) ∧
      ∀ p : Program, p.tokens = tokens → Numbered 0 tokens →
        importClauses tokens = p.placed.flatMap Placed.importClauses := by
  refine ⟨fun before c after hclauses => ?_, ?_, ?_⟩
  · have hfind := find?_imports_of_scan h hdistinct hclauses
    have habsolute : Name.isAbsolute c.localName = false :=
      isAbsolute_of_mem_importClauses (hclauses ▸ List.mem_append_right _ (List.mem_cons_self ..))
    split_ifs with hlater
    · rw [if_pos hlater] at hfind
      exact ⟨(Table.find?_eq_none_iff _ _).mp hfind, fun registry kinds lookup name hname =>
        Name.mem_candidates_of_qualify habsolute hfind hname⟩
    · rw [if_neg hlater] at hfind
      exact ⟨hfind, fun registry kinds lookup => Name.qualify_of_imported habsolute hfind⟩
  · rw [nodup_map_iff]
    constructor
    · intro hall before c after hclauses hlater
      have hfind := find?_imports_of_scan h hdistinct hclauses
      rw [if_pos hlater, hall c (by simp [hclauses])] at hfind
      cases hfind
    · intro hnone c hc
      obtain ⟨before, after, hclauses⟩ := List.append_of_mem hc
      rw [find?_imports_of_scan h hdistinct hclauses, if_neg (hnone before c after hclauses)]
  · rintro p rfl hnumbered
    exact importClauses_program p hnumbered

end

/-- The source `<?php use A\B; use function A\B as f;`. -/
def doubleImport : List Token :=
  [⟨.openTag, "<?php", 1, 0⟩,
    ⟨.useKeyword, "use", 2, 1⟩, ⟨.identifier, "A", 2, 2⟩, ⟨.separator, "\\", 2, 3⟩,
    ⟨.identifier, "B", 2, 4⟩, ⟨.punctuation, ";", 2, 5⟩,
    ⟨.useKeyword, "use", 3, 6⟩, ⟨.functionKeyword, "function", 3, 7⟩, ⟨.identifier, "A", 3, 8⟩,
    ⟨.separator, "\\", 3, 9⟩, ⟨.identifier, "B", 3, 10⟩, ⟨.asKeyword, "as", 3, 11⟩,
    ⟨.identifier, "f", 3, 12⟩, ⟨.punctuation, ";", 3, 13⟩]

/-- The alias of the function is known, and that of the class is lost. -/
theorem imports_of_scan_doubleImport :
    importClauses doubleImport = [⟨"A\\B", "B"⟩, ⟨"A\\B", "f"⟩] ∧
      ∃ index, (scan {} doubleImport).outcome = .ok index ∧ "B" ∉ Table.keys index.imports ∧
        ∀ registry kinds lookup, Name.qualify index registry "f" kinds lookup = .ok "A\\B" := by
  have hclauses : importClauses doubleImport = [⟨"A\\B", "B"⟩, ⟨"A\\B", "f"⟩] := by
    decide +kernel
  obtain ⟨index, hindex⟩ : ∃ index, (scan {} doubleImport).outcome = .ok index :=
    exists_ok_of_isOk (by decide +kernel)
  have hdistinct : ((importClauses doubleImport).map UseClause.localName).Nodup := by
    rw [hclauses]
    decide
  have himports := (imports_of_scan hindex hdistinct).1
  have hfirst := himports [] _ _ hclauses
  have hsecond := himports [_] _ [] hclauses
  rw [if_pos (by decide)] at hfirst
  rw [if_neg (by decide)] at hsecond
  exact ⟨hclauses, index, hindex, hfirst.1, hsecond.2⟩

end Reflection
