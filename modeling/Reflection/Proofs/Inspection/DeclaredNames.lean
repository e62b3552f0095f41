import Reflection.Proofs.Inspection.Elements

/-!
# Declared names

A scan files a function, structure or constant under its name in the innermost namespace around it, and
that namespace is one of the index, unless it has no name. So every name under which something is
declared is among the names that a resolver tries for its local part, and the declaration is found from
either of them.

## Main statements

* `NamespaceAt.listed`: the namespace of a position is one of the index.
* `exists_space_of_scan`: a declared name is one in the namespace around its declaration.
* `declared_names_resolve`: declared names are resolved to themselves.
-/
namespace Reflection

open Token

variable {options : ScanOptions} {tokens : List Token} {index : DeclarationIndex}
  {kind : DeclarationKind} {name localName : String}

/-! ## Namespaces of declarations -/

/-- The namespace of a position is one of the index, unless it has no name. -/
theorem NamespaceAt.listed {position : Int} {space : String} (h : NamespaceAt tokens position space)
    (hscan : (scan options tokens).outcome = .ok index) :
    space = "" ∨ space ∈ index.names .namespaceKind := by
  cases h with
  | outside hnone => exact .inl rfl
  | @inside s keyword hclosed howner hkind =>
    by_cases hname : declaredName tokens keyword = ""
    · exact .inl hname
    · have howned : (keyword, s) ∈
          ownedScopes (closedScopes (Traversal.events tokens)) .namespaceKind :=
        mem_ownedScopes_iff.mpr ⟨hclosed, howner, by rw [hkind]; rfl⟩
      have hlisted : _ ∈ namespaceListings tokens (closedScopes (Traversal.events tokens)) :=
        List.mem_filterMap.mpr ⟨_, howned, if_neg hname⟩
      exact .inr (mem_names_of_mem_streamListings hscan
        (List.mem_append_left _ (List.mem_append_left _ hlisted)))

/-- What is declared under a kind that names are resolved to is named in the namespace that is found for
its keyword. -/
theorem exists_localName_of_mem_streamListings {l : Listing} (h : l ∈ streamListings tokens)
    (hkind : l.declaration.kind ∈ DeclarationKind.resolutionOrder) :
    ∃ localName, l.declaration.name = Name.join
      ((namespaceScopes tokens (closedScopes (Traversal.events tokens))).nameAt
        l.declaration.token.index) localName := by
  rcases List.mem_append.mp h with h | h
  · rcases List.mem_append.mp h with h | h
    · obtain ⟨keyword, s, -, rfl⟩ := exists_of_mem_namespaceListings h
      exact absurd hkind (show .namespaceKind ∉ DeclarationKind.resolutionOrder by decide)
    · obtain ⟨s, -, h⟩ := List.mem_flatMap.mp h
      unfold statementListings at h
      split_ifs at h
      · obtain ⟨clause, -, rfl⟩ := List.mem_map.mp h
        exact absurd hkind (show .useKind ∉ DeclarationKind.resolutionOrder by decide)
      · obtain ⟨d, -, rfl⟩ := List.mem_map.mp h
        exact ⟨d.name.text, rfl⟩
  · obtain ⟨kind, -, h⟩ := List.mem_flatMap.mp h
    obtain ⟨keyword, s, docComment, -, -, rfl⟩ := exists_of_mem_scopedListings h
    exact ⟨declaredName tokens keyword, rfl⟩

/-- A declared name is one in the innermost namespace around the keyword of its declaration. -/
theorem exists_space_of_scan (hnumbered : Numbered 0 tokens)
    (h : (scan options tokens).outcome = .ok index) (hkind : kind ∈ DeclarationKind.resolutionOrder)
    {d : Declaration} (hd : index.declaration? kind name = some d) :
    ∃ space localName, NamespaceAt tokens d.token.index space ∧ name = Name.join space localName := by
  obtain ⟨l, hl, rfl, hkey⟩ := exists_listing_of_scan h hd
  obtain ⟨rfl, rfl⟩ := Prod.mk.inj hkey
  obtain ⟨localName, hname⟩ := exists_localName_of_mem_streamListings hl hkind
  exact ⟨_, localName, namespaceAt_nameAt hnumbered _, hname⟩

/-! ## Declarations by their local names -/

namespace DeclarationIndex

/-- A local name is found under one kind only, that of the declaration that has it for itself. -/
theorem Solitary.lookup?_eq_some_iff (h : index.Solitary kind name)
    (hcontains : index.contains kind name = true) (hlabel : Text.isLabel localName = true)
    (hname : name ∈ Name.candidates index {} localName) {other : DeclarationKind}
    (hother : other ∈ DeclarationKind.resolutionOrder) {found : String} :
    index.lookup? other localName = some found ↔ other = kind ∧ found = name := by
  rw [lookup?_eq_find? (Name.isQualified_of_isLabel hlabel)]
  constructor
  · intro hfind
    exact Name.eq_of_mem_candidates h hlabel hname hother (List.mem_of_find?_eq_some hfind)
      (List.find?_some hfind)
  · rintro ⟨rfl, rfl⟩
    refine find?_eq_some_of_forall hname hcontains fun found hfound hdeclared => ?_
    exact (Name.eq_of_mem_candidates h hlabel hname hother hfound hdeclared).2

end DeclarationIndex

/-- Where a declaration has its local part for itself, and this is no alias, queries by the local part are
answered about the declaration. -/
theorem SourceFile.gives_of_solitary {f : SourceFile} (h : f.buildIndex.outcome = .ok index)
    (hkind : kind ∈ DeclarationKind.resolutionOrder) (hsolitary : index.Solitary kind name)
    (hcontains : index.contains kind name = true) (hlabel : Text.isLabel localName = true)
    (hname : name ∈ Name.candidates index {} localName)
    (halias : Table.find? index.imports localName = none) :
    f.Gives index kind localName name ∧
      (kind ∈ DeclarationKind.structures → ∀ past,
        f.answerAfter past (.ofIndex (.structureKind localName)) = .ok (some kind)) := by
  have hfind (other : DeclarationKind) : SourceFile.find? index other localName =
      index.lookup? other localName :=
    SourceFile.find?_of_relative (Name.isAbsolute_of_isLabel hlabel) halias
  have hlookup {other : DeclarationKind} (hother : other ∈ DeclarationKind.resolutionOrder)
      {found : String} : index.lookup? other localName = some found ↔ other = kind ∧ found = name :=
    hsolitary.lookup?_eq_some_iff hcontains hlabel hname hother
  have hself : SourceFile.find? index kind localName = some name :=
    (hfind kind).trans ((hlookup hkind).mpr ⟨rfl, rfl⟩)
  refine ⟨SourceFile.gives_of_find? h hself hcontains, fun hstructure past => ?_⟩
  rw [SourceFile.answerAfter_ofIndex h]
  refine congrArg Except.ok (find?_eq_some_of_forall hstructure ?_ fun other hother hhas => ?_)
  · rw [SourceFile.has, hself]
    rfl
  · have hresolved : other ∈ DeclarationKind.resolutionOrder := by
      revert hother
      cases other <;> decide
    obtain ⟨found, hfound⟩ := Option.isSome_iff_exists.mp hhas
    exact ((hlookup hresolved).mp ((hfind other).symm.trans hfound)).1

/-- Declared names are resolved to themselves. A function, structure or constant is declared under its
name in the innermost namespace around it, which is one of the index unless it has no name. Its name is
resolved to itself, unless it begins with a separator or is an alias; with a separator at its start it is
fully qualified, and resolved to itself again. A label that is the local part of no other declaration, and
no alias, is resolved to the name under every kind and under its own one, and queries to a file by the
label are answered about the declaration. -/
theorem declared_names_resolve (options : ScanOptions) (stream : List Token)
    {index : DeclarationIndex} (h : (scan options (number 0 stream)).outcome = .ok index)
    {kind : DeclarationKind} (hkind : kind ∈ DeclarationKind.resolutionOrder) {name : String}
    {d : Declaration} (hd : index.declaration? kind name = some d) :
    (∃ space localName, NamespaceAt (number 0 stream) d.token.index space ∧
      (space = "" ∨ space ∈ index.names .namespaceKind) ∧ name = Name.join space localName) ∧
    (Name.isAbsolute name = false → Table.find? index.imports name = none → ∀ registry,
      Name.qualify index registry name (some [kind]) {} = .ok name ∧
      Name.fullyQualify index registry name (some [kind]) {} = .ok ("\\" ++ name) ∧
      ∀ kinds lookup, Name.qualify index registry ("\\" ++ name) kinds lookup = .ok name) ∧
    (∀ space localName, (space = "" ∨ space ∈ index.names .namespaceKind) →
      name = Name.join space localName → Text.isLabel localName = true →
      Table.find? index.imports localName = none → index.Solitary kind name →
      (∀ registry, Name.qualify index registry localName (some [kind]) {} = .ok name ∧
        Name.qualify index registry localName none {} = .ok name) ∧
      ∀ f : SourceFile, f.buildIndex.outcome = .ok index →
        f.Gives index kind localName name ∧
        (kind ∈ DeclarationKind.structures → ∀ past,
          f.answerAfter past (.ofIndex (.structureKind localName)) = .ok (some kind))) := by
  have hcontains : index.contains kind name = true := by
    rw [DeclarationIndex.contains_eq_isSome, hd, Option.isSome_some]
  have hown : kind ∈ Name.requestedKinds (some [kind]) := by
    rw [Name.requestedKinds_singleton hkind]
    exact List.mem_singleton.mpr rfl
  refine ⟨?_, fun habsolute halias registry => ?_, ?_⟩
  · obtain ⟨space, localName, hspace, hname⟩ :=
      exists_space_of_scan (numbered_number 0 stream) h hkind hd
    exact ⟨space, localName, hspace, hspace.listed h, hname⟩
  · have hself : Name.qualify index registry name (some [kind]) {} = .ok name :=
      Name.qualify_of_contains hown hcontains habsolute halias
    refine ⟨hself, ?_, fun kinds lookup => Name.qualify_separator_append lookup name⟩
    rw [Name.fullyQualify, hself]
    rfl
  · intro space localName hspace hjoin hlabel halias hsolitary
    have hname : name ∈ Name.candidates index {} localName := by
      rw [hjoin]
      exact Name.join_mem_candidates hspace localName
    refine ⟨fun registry => ⟨?_, ?_⟩, fun f hf => ?_⟩
    · exact Name.qualify_of_solitary hsolitary hown hcontains hlabel hname halias
    · exact Name.qualify_of_solitary hsolitary hkind hcontains hlabel hname halias
    · exact SourceFile.gives_of_solitary hf hkind hsolitary hcontains hlabel hname halias

/-- The tokens of `namespace A { const K = 1; } namespace B { use A\E as D; class C { } }`. -/
def twoBlocks : List Token :=
  [⟨.openTag, "<?php", 1, 0⟩, ⟨.namespaceKeyword, "namespace", 2, 0⟩, ⟨.identifier, "A", 2, 0⟩,
    ⟨.punctuation, "\x7b", 2, 0⟩, ⟨.constKeyword, "const", 3, 0⟩, ⟨.identifier, "K", 3, 0⟩,
    ⟨.punctuation, "=", 3, 0⟩, ⟨.numberLiteral, "1", 3, 0⟩, ⟨.punctuation, ";", 3, 0⟩,
    ⟨.punctuation, "\x7d", 4, 0⟩, ⟨.namespaceKeyword, "namespace", 5, 0⟩, ⟨.identifier, "B", 5, 0⟩,
    ⟨.punctuation, "\x7b", 5, 0⟩, ⟨.useKeyword, "use", 6, 0⟩, ⟨.identifier, "A", 6, 0⟩,
    ⟨.separator, "\\", 6, 0⟩, ⟨.identifier, "E", 6, 0⟩, ⟨.asKeyword, "as", 6, 0⟩,
    ⟨.identifier, "D", 6, 0⟩, ⟨.punctuation, ";", 6, 0⟩, ⟨.classKeyword, "class", 7, 0⟩,
    ⟨.identifier, "C", 7, 0⟩, ⟨.punctuation, "\x7b", 7, 0⟩, ⟨.punctuation, "\x7d", 7, 0⟩,
    ⟨.punctuation, "\x7d", 8, 0⟩]

/-- A file with these tokens. -/
def twoBlocksFile : SourceFile :=
  SourceFile.ofSource {} [] (fun _ => number 0 twoBlocks) .none none

/-- The class is found by its label, past the namespace that does not have it. -/
theorem declared_names_resolve_twoBlocks :
    ∃ index, twoBlocksFile.buildIndex.outcome = .ok index ∧
      Name.fullyQualify index none "B\\C" (some [.classKind]) {} = .ok "\\B\\C" ∧
      Name.qualify index none "C" none {} = .ok "B\\C" ∧
      twoBlocksFile.Gives index .classKind "C" "B\\C" ∧
      twoBlocksFile.answerAfter [] (.ofIndex (.structureKind "C")) = .ok (some .classKind) := by
  obtain ⟨index, hindex⟩ : ∃ index, twoBlocksFile.buildIndex.outcome = .ok index :=
    exists_ok_of_isOk (by decide +kernel)
  obtain ⟨tokens, htokens, hscan⟩ := SourceFile.exists_scan_of_buildIndex hindex
  cases htokens
  have hspaces : index.names .namespaceKind = ["A", "B"] :=
    read_of_eq_ok (·.names .namespaceKind) hindex (by decide +kernel)
  have himports : index.imports = [("D", "A\\E")] :=
    read_of_eq_ok DeclarationIndex.imports hindex (by decide +kernel)
  have hnames : DeclarationKind.resolutionOrder.map index.names = [[], [], ["B\\C"], [], ["A\\K"]] :=
    read_of_eq_ok (fun index => DeclarationKind.resolutionOrder.map index.names) hindex
      (by decide +kernel)
  simp only [DeclarationKind.resolutionOrder, List.map_cons, List.map_nil, List.cons.injEq,
    and_true] at hnames
  obtain ⟨hinterfaces, htraits, hclasses, hfunctions, hconstants⟩ := hnames
  have hd : (index.declaration? .classKind "B\\C").isSome = true := by
    rw [← DeclarationIndex.contains_eq_isSome, DeclarationIndex.contains_iff_mem_names, hclasses]
    exact List.mem_singleton.mpr rfl
  obtain ⟨d, hd⟩ := Option.isSome_iff_exists.mp hd
  have hsolitary : index.Solitary .classKind "B\\C" := by
    have hother : Name.localPart "A\\K" ≠ Name.localPart "B\\C" := by decide
    simp [DeclarationIndex.Solitary, DeclarationKind.resolutionOrder, hinterfaces, htraits, hclasses,
      hfunctions, hconstants, hother]
  obtain ⟨-, hself, hlocal⟩ :=
    declared_names_resolve twoBlocksFile.scanOptions twoBlocks hscan (by decide) hd
  obtain ⟨-, hfull, -⟩ := hself (by decide) (by rw [himports]; decide) none
  obtain ⟨hqualify, hfile⟩ := hlocal "B" "C" (.inr (by rw [hspaces]; decide)) (by decide) (by decide)
    (by rw [himports]; decide) hsolitary
  obtain ⟨hgives, hstructure⟩ := hfile twoBlocksFile hindex
  exact ⟨index, hindex, hfull, (hqualify none).2, hgives, hstructure (by decide) []⟩

end Reflection
