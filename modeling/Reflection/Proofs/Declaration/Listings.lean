import Reflection.Proofs.Declaration.Completion
import Reflection.Proofs.Program.Recovery

/-!
# What a stream declares

A scan whose statements have no fault files one list of declarations, which depends on the tokens
alone: the namespaces, the clauses of the statements, and the functions and structures. How the stream
is scanned decides only what their names stand for.

## Main definitions

* `fileListings`, `symbolListings`: what a stream declares.
* `Listing.WellSorted`: the meaning of a name fits the kind of its declaration.

## Main statements

* `outcome_scan_eq_fileAll`: a scan without faulty statements files what the stream declares.
* `value?_fileAll`: what holds of every definition holds of the index.
-/
namespace Reflection

open Token

variable {options options' : ScanOptions} {tokens : List Token} {closed : List Scope}
  {namespaces : NamespaceScopes} {index last : DeclarationIndex} {listings : List Listing}

/-! ## Listings of a stream -/

/-- The namespaces that have a name. -/
def namespaceListings (tokens : List Token) (closed : List Scope) : List Listing :=
  (ownedScopes closed .namespaceKind).filterMap fun (keyword, s) =>
    let name := declaredName tokens keyword
    if name = "" then none else some ⟨⟨.namespaceKind, name, s, keyword, ""⟩, .text name⟩

/-- The imports of a statement. -/
def useListings (tokens : List Token) (s : Statement) : List Listing :=
  (readUse s.token.line (tokensAfter tokens s.token)).items.map fun clause =>
    ⟨⟨.useKind, clause.name, s.scope, s.token, ""⟩, .text clause.localName⟩

/-- The constants of a statement. -/
def constListings (tokens : List Token) (namespaces : NamespaceScopes) (s : Statement) :
    List Listing :=
  let space := namespaces.nameAt s.token.index
  let docComment := docCommentBefore [] (tokensBefore tokens s.token)
  (readConst s.token.line (lastLine tokens) (tokensAfter tokens s.token)).items.map fun d =>
    ⟨⟨.constKind, Name.join space d.name.text, s.scope, s.token, docComment⟩, .constant space d⟩

/-- The imports or the constants of a statement. -/
def statementListings (tokens : List Token) (namespaces : NamespaceScopes) (s : Statement) :
    List Listing :=
  if s.token.kind = .useKeyword then useListings tokens s else constListings tokens namespaces s

/-- The functions or structures of a kind that have a name, methods left out. -/
def scopedListings (tokens : List Token) (closed : List Scope) (namespaces : NamespaceScopes)
    (kind : DeclarationKind) : List Listing :=
  (ownedScopes closed kind).filterMap fun (keyword, s) =>
    let name := declaredName tokens keyword
    if name = "" ∨ (kind = .functionKind ∧ s.parentKind?.any ownsMethods) then none
    else
      let modifiers := if kind = .functionKind then [] else structureModifiers
      some ⟨⟨kind, Name.join (namespaces.nameAt keyword.index) name, s, keyword,
        docCommentBefore modifiers (tokensBefore tokens keyword)⟩, .symbol⟩

/-- The namespaces, imports and constants of a stream, in the order in which they are filed. -/
def fileListings (tokens : List Token) : List Listing :=
  let events := Traversal.events tokens
  let closed := closedScopes events
  namespaceListings tokens closed ++
    (statements tokens events).flatMap (statementListings tokens (namespaceScopes tokens closed))

/-- The functions and structures of a stream, in the order in which they are filed. -/
def symbolListings (tokens : List Token) : List Listing :=
  let closed := closedScopes (Traversal.events tokens)
  scopedKinds.flatMap (scopedListings tokens closed (namespaceScopes tokens closed))

/-- Everything that a stream declares, in the order in which it is filed. -/
def streamListings (tokens : List Token) : List Listing :=
  fileListings tokens ++ symbolListings tokens

section

variable {l : Listing}

theorem exists_of_mem_namespaceListings (h : l ∈ namespaceListings tokens closed) :
    ∃ keyword s, (keyword, s) ∈ ownedScopes closed .namespaceKind ∧
      l = ⟨⟨.namespaceKind, declaredName tokens keyword, s, keyword, ""⟩,
        .text (declaredName tokens keyword)⟩ := by
  obtain ⟨⟨keyword, s⟩, howned, hlisted⟩ := List.mem_filterMap.mp h
  by_cases hname : declaredName tokens keyword = ""
  · simp [hname] at hlisted
  · simp only [hname, if_false, Option.some.injEq] at hlisted
    exact ⟨keyword, s, howned, hlisted.symm⟩

/-- A statement declares imports or constants, depending on its keyword. -/
theorem exists_of_mem_statementListings {s : Statement}
    (h : l ∈ statementListings tokens namespaces s) :
    (s.token.kind = .useKeyword ∧ ∃ clause : UseClause,
      l = ⟨⟨.useKind, clause.name, s.scope, s.token, ""⟩, .text clause.localName⟩) ∨
    (s.token.kind ≠ .useKeyword ∧ ∃ name docComment space d,
      l = ⟨⟨.constKind, name, s.scope, s.token, docComment⟩, .constant space d⟩) := by
  unfold statementListings at h
  split at h
  · rename_i hkind
    obtain ⟨clause, -, rfl⟩ := List.mem_map.mp h
    exact .inl ⟨hkind, clause, rfl⟩
  · rename_i hkind
    obtain ⟨d, -, rfl⟩ := List.mem_map.mp h
    exact .inr ⟨hkind, _, _, _, d, rfl⟩

/-- A function or structure is declared by the owner of its scope, and a function is no method. -/
theorem exists_of_mem_scopedListings {kind : DeclarationKind}
    (h : l ∈ scopedListings tokens closed namespaces kind) :
    ∃ keyword s docComment, (keyword, s) ∈ ownedScopes closed kind ∧
      ¬ (kind = .functionKind ∧ s.parentKind?.any ownsMethods = true) ∧
      l = ⟨⟨kind, Name.join (namespaces.nameAt keyword.index) (declaredName tokens keyword), s,
        keyword, docComment⟩, .symbol⟩ := by
  obtain ⟨⟨keyword, s⟩, howned, hlisted⟩ := List.mem_filterMap.mp h
  by_cases hskip : declaredName tokens keyword = "" ∨
      (kind = .functionKind ∧ s.parentKind?.any ownsMethods = true)
  · simp [hskip] at hlisted
  · simp only [hskip, if_false, Option.some.injEq] at hlisted
    exact ⟨keyword, s, _, howned, fun hmethod => hskip (.inr hmethod), hlisted.symm⟩

end

/-! ## Stages -/

theorem fileNamespaces_eq_fileAll (options : ScanOptions) (index : DeclarationIndex) :
    fileNamespaces tokens closed index =
      fileAll options index (namespaceListings tokens closed) := by
  rw [fileNamespaces, namespaceListings, fileAll_filterMap]
  refine foldlM_congr_mem (fun owned _ index => ?_) index
  rw [fileAll_toList]
  by_cases hname : declaredName tokens owned.1 = ""
  · simp only [hname, if_true]
  · simp only [hname, if_false, Listing.define, pure_bind]

/-- A statement without fault files its clauses. -/
theorem fileStatement_eq_fileAll (options : ScanOptions) {s : Statement}
    (hfault : statementFault? tokens s = none) (index : DeclarationIndex) :
    fileStatement options tokens namespaces index s =
      fileAll options index (statementListings tokens namespaces s) := by
  have hclauses {σ α : Type} {add : σ → α → Report ScanFault σ} {clauses : Clauses α}
      (h : clauses.fault = none) (start : σ) :
      addClauses add start clauses = clauses.items.foldlM add start := by
    rw [addClauses, h]
    exact bind_pure _
  unfold statementFault? at hfault
  unfold fileStatement statementListings
  split_ifs at hfault ⊢
  · rw [fileUse, hclauses hfault, useListings, fileAll, List.foldlM_map]
    refine foldlM_congr_mem (fun clause _ index => ?_) index
    simp only [Listing.define, pure_bind]
  · rw [fileConst, hclauses hfault, constListings, fileAll, List.foldlM_map]
    refine foldlM_congr_mem (fun d _ index => ?_) index
    simp only [Listing.define, constantOf, bind_assoc, pure_bind]

theorem fileScoped_eq_fileAll (options : ScanOptions) (index : DeclarationIndex)
    (kind : DeclarationKind) :
    fileScoped options tokens closed namespaces index kind =
      fileAll options index (scopedListings tokens closed namespaces kind) := by
  rw [fileScoped, scopedListings, fileAll_filterMap]
  refine foldlM_congr_mem (fun owned _ index => ?_) index
  rw [fileAll_toList]
  by_cases hskip : declaredName tokens owned.1 = "" ∨
      (kind = .functionKind ∧ owned.2.parentKind?.any ownsMethods)
  · simp only [hskip, if_true]
  · simp only [hskip, if_false, Listing.define]

/-- A scan whose statements have no fault files what the stream declares. -/
theorem outcome_scan_eq_fileAll (options : ScanOptions)
    (hfaults : ∀ s ∈ statements tokens (Traversal.events tokens), statementFault? tokens s = none) :
    (scan options tokens).outcome = (fileAll options {} (streamListings tokens)).outcome := by
  let closed := closedScopes (Traversal.events tokens)
  have hwarn (warnings : List String) (next : Unit → Report ScanFault DeclarationIndex) :
      (Report.warn warnings >>= next).outcome = (next ()).outcome := by
    rw [Report.outcome_bind]
    rfl
  have hstatements (index : DeclarationIndex) :
      (statements tokens (Traversal.events tokens)).foldlM
          (fileStatement options tokens (namespaceScopes tokens closed)) index =
        fileAll options index ((statements tokens (Traversal.events tokens)).flatMap
          (statementListings tokens (namespaceScopes tokens closed))) := by
    rw [fileAll_flatMap]
    exact foldlM_congr_mem
      (fun s hs index => fileStatement_eq_fileAll options (hfaults s hs) index) index
  have hscoped (index : DeclarationIndex) :
      scopedKinds.foldlM (fileScoped options tokens closed (namespaceScopes tokens closed)) index =
        fileAll options index (symbolListings tokens) := by
    rw [symbolListings, fileAll_flatMap]
    exact foldlM_congr_mem (fun kind _ index => fileScoped_eq_fileAll options index kind) index
  rw [scan, hwarn, fileNamespaces_eq_fileAll options, streamListings, fileListings, fileAll_append,
    fileAll_append, bind_assoc]
  simp only [closed, hstatements, hscoped]

/-- Where one scan of a stream completes, every scan of it files what the stream declares. -/
theorem outcome_scan_of_completed (h : (scan options tokens).outcome = .ok index)
    (options' : ScanOptions) :
    (scan options' tokens).outcome = (fileAll options' {} (streamListings tokens)).outcome :=
  outcome_scan_eq_fileAll options' (faults_of_scan h)

/-- A scan that evaluates nothing fails only at a faulty statement, or where a function or structure stands
for nothing. -/
theorem exists_ok_scan (heval : options.evaluates = false)
    (hdefine : ∀ kind name, ∃ d, options.define kind name = .ok d)
    (hsound : ∀ s ∈ statements tokens (Traversal.events tokens), statementFault? tokens s = none) :
    ∃ index, (scan options tokens).outcome = .ok index := by
  rw [outcome_scan_eq_fileAll options hsound]
  exact exists_ok_fileAll heval hdefine {}

/-! ## Meanings -/

/-- Namespaces and imports stand for texts, constants for constants, functions and structures for
symbols. -/
def Listing.WellSorted (l : Listing) : Prop :=
  match l.meaning with
  | .text _ => l.declaration.kind = .namespaceKind ∨ l.declaration.kind = .useKind
  | .constant _ _ => l.declaration.kind = .constKind
  | .symbol => l.declaration.kind ∈ scopedKinds

/-- The names that stand for symbols are those of functions and structures. -/
theorem Listing.WellSorted.meaning_eq_symbol_iff {l : Listing} (h : l.WellSorted) :
    l.meaning = .symbol ↔ l.declaration.kind ∈ scopedKinds := by
  unfold Listing.WellSorted at h
  cases hmeaning : l.meaning with
  | text s =>
    rw [hmeaning] at h
    rcases h with hkind | hkind <;> simp [hkind, scopedKinds]
  | constant space d =>
    rw [hmeaning] at h
    simp [show l.declaration.kind = .constKind from h, scopedKinds]
  | symbol =>
    rw [hmeaning] at h
    exact iff_of_true rfl h

theorem wellSorted_fileListings : ∀ l ∈ fileListings tokens, l.WellSorted ∧ l.meaning ≠ .symbol := by
  intro l hl
  rcases List.mem_append.mp hl with hl | hl
  · obtain ⟨keyword, s, -, rfl⟩ := exists_of_mem_namespaceListings hl
    exact ⟨.inl rfl, nofun⟩
  · obtain ⟨s, -, hl⟩ := List.mem_flatMap.mp hl
    obtain ⟨-, clause, rfl⟩ | ⟨-, name, docComment, space, d, rfl⟩ :=
      exists_of_mem_statementListings hl
    · exact ⟨.inr rfl, nofun⟩
    · exact ⟨rfl, nofun⟩

theorem wellSorted_symbolListings : ∀ l ∈ symbolListings tokens,
    l.WellSorted ∧ l.meaning = .symbol := by
  intro l hl
  obtain ⟨kind, hkind, hl⟩ := List.mem_flatMap.mp hl
  obtain ⟨keyword, s, docComment, -, -, rfl⟩ := exists_of_mem_scopedListings hl
  exact ⟨hkind, rfl⟩

/-- The meanings of names fit the kinds of their declarations. -/
theorem wellSorted_streamListings : ∀ l ∈ streamListings tokens, l.WellSorted := by
  intro l hl
  rcases List.mem_append.mp hl with hl | hl
  · exact (wellSorted_fileListings l hl).1
  · exact (wellSorted_symbolListings l hl).1

/-! ## What names stand for -/

namespace DeclarationIndex

theorem mem_names_iff (index : DeclarationIndex) (kind : DeclarationKind) (name : String) :
    name ∈ index.names kind ↔ (kind, name) ∈ Table.keys index.entries := by
  simp only [names, ofKind, Table.keys, List.mem_map, List.mem_filterMap]
  constructor
  · rintro ⟨found, ⟨⟨key, entry⟩, hentry, hkind⟩, rfl⟩
    split_ifs at hkind with heq
    cases hkind
    exact ⟨(key, entry), hentry, by rw [← heq]⟩
  · rintro ⟨⟨key, entry⟩, hentry, rfl⟩
    exact ⟨(name, entry), ⟨((kind, name), entry), hentry, if_pos rfl⟩, rfl⟩

theorem mem_names_iff_isSome_value? (index : DeclarationIndex) (kind : DeclarationKind)
    (name : String) : name ∈ index.names kind ↔ (index.value? kind name).isSome = true := by
  rw [mem_names_iff, ← Table.contains_iff_mem_keys, value?, Option.isSome_map]
  rfl

theorem contains_iff_mem_names (index : DeclarationIndex) (kind : DeclarationKind) (name : String) :
    index.contains kind name = true ↔ name ∈ index.names kind := by
  rw [mem_names_iff_isSome_value?, value?, Option.isSome_map, contains]

/-- Adding a declaration changes what no other name stands for. -/
theorem value?_add_eq_some {d : Declaration} {definition v : Definition} {kind : DeclarationKind}
    {name : String} (h : (index.add d definition).1.value? kind name = some v) :
    index.value? kind name = some v ∨ ((d.kind, d.name) = (kind, name) ∧ definition = v) := by
  rw [value?, find?_add] at h
  split_ifs at h with hkey hspace
  · rw [Option.map_or, Option.or_eq_some_iff] at h
    rcases h with hold | ⟨-, hown⟩
    · exact .inl hold
    · exact .inr ⟨hkey, Option.some.inj hown⟩
  · exact .inr ⟨hkey, Option.some.inj h⟩
  · exact .inl h

end DeclarationIndex

/-- What holds of the definition of every declaration holds of every definition in the index. -/
theorem value?_fileAll {P : DeclarationKind → String → Definition → Prop}
    (hdefine : ∀ l ∈ listings, ∀ index v, (l.define options index).outcome = .ok v →
      P l.declaration.kind l.declaration.name v)
    (hstart : ∀ kind name v, index.value? kind name = some v → P kind name v)
    (h : (fileAll options index listings).outcome = .ok last) :
    ∀ kind name v, last.value? kind name = some v → P kind name v := by
  induction listings generalizing index with
  | nil =>
    cases h
    exact hstart
  | cons l rest ih =>
    obtain ⟨hl, hrest⟩ := List.forall_mem_cons.mp hdefine
    obtain ⟨definition, hdefinition, h⟩ := (fileAll_cons_eq_ok_iff options).mp h
    refine ih hrest (fun kind name v hv => ?_) h
    rcases DeclarationIndex.value?_add_eq_some hv with hold | ⟨hkey, rfl⟩
    · exact hstart kind name v hold
    · obtain ⟨rfl, rfl⟩ := Prod.mk.inj hkey
      exact hl index definition hdefinition

end Reflection
