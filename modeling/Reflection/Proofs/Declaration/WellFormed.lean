import Reflection.Proofs.Declaration.Listings
import Reflection.Proofs.Scope.Enclosure

/-!
# The index of a scan is well formed

Whatever a stream holds, an index that a scan builds from it is coherent. Every entry stands under the
kind and name of its declaration, whose keyword is one of that kind. A function or structure owns its
scope, which starts after its keyword and ends in the stream, and is known by its name in the innermost
namespace around the keyword. No function is a method.

## Main definitions

* `NamespaceAt`: the name of the innermost namespace around a position.
* `Declaration.IsPlaced`: a function or structure stands where its stream has it.
* `DeclarationIndex.WellFormed`: what holds of the index of a scan.

## Main statements

* `namespaceAt_nameAt`: the namespaces of a stream are searched for the innermost one.
* `wellFormed_scan`: the index of a scan is well formed.
-/
namespace Reflection

open Token

variable {options : ScanOptions} {tokens : List Token} {closed : List Scope}
  {namespaces : NamespaceScopes} {index : DeclarationIndex} {listings : List Listing}
  {kind : DeclarationKind} {name : String}

/-! ## Keywords -/

/-- Kind of the keyword of a declaration. -/
def DeclarationKind.keyword : DeclarationKind → TokenKind
  | namespaceKind => .namespaceKeyword
  | useKind => .useKeyword
  | constKind => .constKeyword
  | functionKind => .functionKeyword
  | interfaceKind => .interfaceKeyword
  | traitKind => .traitKeyword
  | classKind => .classKeyword

theorem DeclarationKind.keyword_of_ofOwner? {owner : TokenKind}
    (h : DeclarationKind.ofOwner? owner = some kind) : owner = kind.keyword := by
  cases owner <;> cases h <;> rfl

/-- What is owned by a kind of declarations are the scopes whose owners have its keyword. -/
theorem mem_ownedScopes_iff {keyword : Token} {s : Scope} :
    (keyword, s) ∈ ownedScopes closed kind ↔
      s ∈ closed ∧ s.owner = some keyword ∧ DeclarationKind.ofOwner? keyword.kind = some kind := by
  simp only [ownedScopes, List.mem_filterMap]
  constructor
  · rintro ⟨found, hfound, howned⟩
    split_ifs at howned with hkind
    obtain ⟨owner, howner, heq⟩ := Option.map_eq_some_iff.mp howned
    cases heq
    refine ⟨hfound, howner, ?_⟩
    simpa [ownerDeclaration?, Scope.ownerKind?, howner] using hkind
  · rintro ⟨hs, howner, hkind⟩
    refine ⟨s, hs, ?_⟩
    rw [if_pos (by simp [ownerDeclaration?, Scope.ownerKind?, howner, hkind]), howner]
    rfl

/-! ## The namespace of a position -/

/-- The name of the innermost namespace around a position of a stream, which is empty where the
namespace has no name, and where there is none. -/
inductive NamespaceAt (tokens : List Token) (index : Int) : String → Prop
  | inside {s : Scope} {keyword : Token} (hclosed : s ∈ closedScopes (Traversal.events tokens))
      (howner : s.owner = some keyword) (hkind : keyword.kind = .namespaceKeyword)
      (hcontains : s.contains index = true)
      (hinnermost : ∀ a ∈ closedScopes (Traversal.events tokens),
        a.ownerKind? = some .namespaceKeyword → a.contains index = true → a = s ∨ a.Encloses s) :
      NamespaceAt tokens index (declaredName tokens keyword)
  | outside (hnone : ∀ a ∈ closedScopes (Traversal.events tokens),
        a.ownerKind? = some .namespaceKeyword → a.contains index = false) :
      NamespaceAt tokens index ""

/-- Of the namespaces seen so far, the one that is found is one of the deepest around a position. -/
def Deepest (index : Int) (seen : NamespaceScopes) : Option (Scope × String) → Prop
  | none => ∀ e ∈ seen, e.1.contains index = false
  | some found => found ∈ seen ∧ found.1.contains index = true ∧
      ∀ e ∈ seen, e.1.contains index = true → e.1.level ≤ found.1.level

theorem Deepest.step {index : Int} {seen : NamespaceScopes} {found : Option (Scope × String)}
    (h : Deepest index seen found) (e : Scope × String) :
    Deepest index (seen ++ [e]) (innermost index found e) := by
  unfold innermost
  cases hcontains : e.1.contains index with
  | false =>
    rw [Bool.false_and, if_neg Bool.false_ne_true]
    cases found with
    | none =>
      refine List.forall_mem_append.mpr ⟨h, ?_⟩
      exact List.forall_mem_singleton.mpr hcontains
    | some best =>
      obtain ⟨hmem, hbest, hdeepest⟩ := h
      refine ⟨List.mem_append_left _ hmem, hbest, List.forall_mem_append.mpr ⟨hdeepest, ?_⟩⟩
      exact List.forall_mem_singleton.mpr fun hcontains' =>
        absurd (hcontains.symm.trans hcontains') Bool.false_ne_true
  | true =>
    rw [Bool.true_and]
    cases found with
    | none =>
      rw [Option.all_none, if_pos rfl]
      refine ⟨List.mem_append_right _ (List.mem_singleton.mpr rfl), hcontains,
        List.forall_mem_append.mpr ⟨fun other hother hcontains' => ?_, ?_⟩⟩
      · rw [h other hother] at hcontains'
        cases hcontains'
      · exact List.forall_mem_singleton.mpr fun _ => Nat.le_refl _
    | some best =>
      obtain ⟨hmem, hbest, hdeepest⟩ := h
      rw [Option.all_some]
      split_ifs with hlevel
      · rw [decide_eq_true_eq] at hlevel
        refine ⟨List.mem_append_right _ (List.mem_singleton.mpr rfl), hcontains,
          List.forall_mem_append.mpr ⟨fun other hother hcontains' => ?_, ?_⟩⟩
        · exact Nat.le_of_lt (Nat.lt_of_le_of_lt (hdeepest other hother hcontains') hlevel)
        · exact List.forall_mem_singleton.mpr fun _ => Nat.le_refl _
      · rw [decide_eq_true_eq, Nat.not_lt] at hlevel
        refine ⟨List.mem_append_left _ hmem, hbest, List.forall_mem_append.mpr ⟨hdeepest, ?_⟩⟩
        exact List.forall_mem_singleton.mpr fun _ => hlevel

theorem Deepest.run {index : Int} {seen : NamespaceScopes} {found : Option (Scope × String)}
    (h : Deepest index seen found) (entries : NamespaceScopes) :
    Deepest index (seen ++ entries) (entries.foldl (innermost index) found) := by
  induction entries generalizing seen found with
  | nil => simpa using h
  | cons e rest ih =>
    rw [List.append_cons]
    exact ih (h.step e)

/-- The namespaces of a stream are searched for the innermost one around a position: those around it
form a chain, in which the deepest one is enclosed by the others. -/
theorem namespaceAt_nameAt (hnumbered : Numbered 0 tokens) (index : Int) :
    NamespaceAt tokens index
      ((namespaceScopes tokens (closedScopes (Traversal.events tokens))).nameAt index) := by
  have hentries : ∀ (a : Scope), a ∈ closedScopes (Traversal.events tokens) →
      a.ownerKind? = some .namespaceKeyword → ∃ name,
        (a, name) ∈ namespaceScopes tokens (closedScopes (Traversal.events tokens)) := by
    intro a ha hkind
    obtain ⟨keyword, howner, hkeyword⟩ := Option.map_eq_some_iff.mp hkind
    exact ⟨_, List.mem_map.mpr ⟨(keyword, a),
      mem_ownedScopes_iff.mpr ⟨ha, howner, by rw [hkeyword]; rfl⟩, rfl⟩⟩
  have hdeepest : Deepest index [] none := fun e he => nomatch he
  replace hdeepest := hdeepest.run
    (namespaceScopes tokens (closedScopes (Traversal.events tokens)))
  rw [List.nil_append] at hdeepest
  unfold NamespaceScopes.nameAt
  revert hdeepest
  cases (namespaceScopes tokens (closedScopes (Traversal.events tokens))).foldl
    (innermost index) none with
  | none =>
    intro hnone
    refine .outside fun a ha hkind => ?_
    obtain ⟨name, hentry⟩ := hentries a ha hkind
    exact hnone _ hentry
  | some found =>
    intro ⟨hmem, hcontains, hdeepest⟩
    obtain ⟨⟨keyword, s⟩, howned, rfl⟩ := List.mem_map.mp hmem
    obtain ⟨hs, howner, hkind⟩ := mem_ownedScopes_iff.mp howned
    refine .inside hs howner (DeclarationKind.keyword_of_ofOwner? hkind) hcontains
      fun a ha hkind' hcontains' => ?_
    obtain ⟨name, hentry⟩ := hentries a ha hkind'
    have hlevel := hdeepest _ hentry hcontains'
    have hnested := wellNested_events hnumbered
    have ha' := (mem_closedScopes_events hnumbered a).mp ha
    have hs' := (mem_closedScopes_events hnumbered s).mp hs
    rcases hnested.encloses_or_of_contains ha' hs' hcontains' hcontains with heq | hencloses | hinner
    · exact .inl heq
    · exact .inr hencloses
    · exact absurd hlevel (Nat.not_le.mpr (hnested.level_lt hs' ha' hinner))

/-! ## Well-formed indexes -/

/-- A function or structure stands where its stream has it: its keyword owns its scope, which starts
after the keyword and ends in the stream, and its name is the declared one in the innermost namespace
around the keyword. A function does not stand immediately in a structure. -/
structure Declaration.IsPlaced (tokens : List Token) (d : Declaration) : Prop where
  token_mem : d.token ∈ tokens
  closed : d.scope ∈ closedScopes (Traversal.events tokens)
  owner : d.scope.owner = some d.token
  bounds : ∃ last, d.scope.last = some last ∧
    d.token.index < d.scope.first ∧ d.scope.first ≤ last ∧ last < tokens.length
  name : ∃ space, NamespaceAt tokens d.token.index space ∧
    d.name = Name.join space (declaredName tokens d.token)
  not_method : d.kind = .functionKind → ∀ (a : Scope) (t : Token),
    a.ImmediatelyEncloses (closedScopes (Traversal.events tokens)) d.scope → a.owner = some t →
      t.kind ∉ [TokenKind.classKeyword, .traitKeyword, .interfaceKeyword]

/-- An index is coherent in itself and with the stream that it is about. -/
structure DeclarationIndex.WellFormed (tokens : List Token) (index : DeclarationIndex) : Prop where
  nodup : ∀ kind, (index.names kind).Nodup
  mem_names : ∀ kind name, name ∈ index.names kind ↔ (index.value? kind name).isSome = true
  declared : ∀ kind name,
    (index.value? kind name).isSome = true ↔ (index.declaration? kind name).isSome = true
  keyed : ∀ kind name d, index.declaration? kind name = some d → d.kind = kind ∧ d.name = name
  token_kind : ∀ kind name d, index.declaration? kind name = some d → d.token.kind = kind.keyword
  placed : ∀ kind ∈ scopedKinds, ∀ name d, index.declaration? kind name = some d → d.IsPlaced tokens

namespace DeclarationIndex

theorem names_eq_filterMap (index : DeclarationIndex) (kind : DeclarationKind) :
    index.names kind =
      (Table.keys index.entries).filterMap fun key => if key.1 = kind then some key.2 else none := by
  rw [names, ofKind, Table.keys, List.map_filterMap, List.filterMap_map]
  refine congrArg (fun f => List.filterMap f index.entries) (funext fun e => ?_)
  by_cases hkind : e.1.1 = kind
  · simp [hkind]
  · simp [hkind]

/-- No kind and name comes twice. -/
def Distinct (index : DeclarationIndex) : Prop := (Table.keys index.entries).Nodup

theorem keptBy_distinct (kind : DeclarationKind) : KeptBy Distinct kind := by
  intro index d definition _ h
  unfold Distinct at h ⊢
  rw [keys_add]
  split_ifs with hmem
  · exact h
  · exact List.nodup_append.mpr ⟨h, List.nodup_singleton _, fun key hkey key' hkey' => by
      rw [List.mem_singleton.mp hkey']
      rintro rfl
      exact hmem hkey⟩

theorem Distinct.nodup_names (h : index.Distinct) (kind : DeclarationKind) :
    (index.names kind).Nodup := by
  rw [names_eq_filterMap]
  refine h.filterMap fun key key' name hname hname' => ?_
  simp only [Option.mem_def, Option.ite_none_right_eq_some, Option.some.injEq] at hname hname'
  exact Prod.ext (hname.1.trans hname'.1.symm) (hname.2.trans hname'.2.symm)

end DeclarationIndex

/-! ## Entries of a scan -/

theorem exists_of_kept? {d : Declaration} (h : kept? kind name listings = some d) :
    ∃ l ∈ listings, l.declaration = d ∧ l.key = (kind, name) := by
  have hmem : d ∈ (listings.filter (·.key == (kind, name))).map Listing.declaration := by
    unfold kept? at h
    dsimp only at h
    split at h
    · exact List.mem_of_head? h
    · exact List.mem_of_getLast? h
  obtain ⟨l, hl, hd⟩ := List.mem_map.mp hmem
  obtain ⟨hl, hkey⟩ := List.mem_filter.mp hl
  exact ⟨l, hl, hd, beq_iff_eq.mp hkey⟩

/-- Every declaration in the index of a scan is one that the stream makes. -/
theorem exists_listing_of_scan (h : (scan options tokens).outcome = .ok index) {d : Declaration}
    (hd : index.declaration? kind name = some d) :
    ∃ l ∈ streamListings tokens, l.declaration = d ∧ l.key = (kind, name) := by
  rw [outcome_scan_of_completed h options] at h
  rw [declaration?_fileAll h] at hd
  exact exists_of_kept? hd

/-- The keyword of a declaration is that of its kind. -/
theorem keyword_of_mem_streamListings {l : Listing} (h : l ∈ streamListings tokens) :
    l.declaration.token.kind = l.declaration.kind.keyword := by
  rcases List.mem_append.mp h with h | h
  · rcases List.mem_append.mp h with h | h
    · obtain ⟨keyword, s, howned, rfl⟩ := exists_of_mem_namespaceListings h
      exact DeclarationKind.keyword_of_ofOwner? (mem_ownedScopes_iff.mp howned).2.2
    · obtain ⟨s, hs, h⟩ := List.mem_flatMap.mp h
      obtain ⟨hkind, clause, rfl⟩ | ⟨hkind, name, docComment, space, d, rfl⟩ :=
        exists_of_mem_statementListings h
      · exact hkind
      · -- A statement that does not import declares constants.
        obtain ⟨e, -, he⟩ := List.mem_filterMap.mp hs
        cases e with
        | passed t scope =>
          dsimp only at he
          split_ifs at he with hstatement
          cases he
          have hkeyword := (Bool.and_eq_true_iff.mp hstatement).1
          simp only [isStatementKeyword, Bool.or_eq_true, Bool.and_eq_true, beq_iff_eq] at hkeyword
          exact (hkeyword.resolve_left hkind).1
        | _ => cases he
  · obtain ⟨kind, -, h⟩ := List.mem_flatMap.mp h
    obtain ⟨keyword, s, docComment, howned, -, rfl⟩ := exists_of_mem_scopedListings h
    exact DeclarationKind.keyword_of_ofOwner? (mem_ownedScopes_iff.mp howned).2.2

/-- The functions and structures of a stream stand where it has them. -/
theorem isPlaced_of_mem_symbolListings (hnumbered : Numbered 0 tokens) {l : Listing}
    (h : l ∈ symbolListings tokens) : l.declaration.IsPlaced tokens := by
  obtain ⟨kind, hkind, h⟩ := List.mem_flatMap.mp h
  obtain ⟨keyword, s, docComment, howned, hmethod, rfl⟩ := exists_of_mem_scopedListings h
  obtain ⟨hs, howner, hkeyword⟩ := mem_ownedScopes_iff.mp howned
  obtain ⟨hmem, hbefore⟩ := owner_closedScopes hnumbered hs howner
  obtain ⟨last, hlast, -, hle, hend⟩ := (wellNested_events hnumbered).within s
    ((mem_closedScopes_events hnumbered s).mp hs)
  refine ⟨hmem, hs, howner, ⟨last, hlast, hbefore ?_, hle, ?_⟩,
    ⟨_, namespaceAt_nameAt hnumbered keyword.index, rfl⟩, fun hfunction a t hab ht hstructure => ?_⟩
  · rw [DeclarationKind.keyword_of_ofOwner? hkeyword]
    revert hkind
    cases kind <;> decide
  · show last < (tokens.length : Int)
    omega
  · have hparent : s.parentKind? = some t.kind := by
      rw [Scope.parentKind?, parent_of_immediatelyEncloses hnumbered hs hab, ht]
      rfl
    refine hmethod ⟨hfunction, ?_⟩
    rw [hparent, Option.any_some]
    simp only [List.mem_cons, List.not_mem_nil, or_false] at hstructure
    rcases hstructure with hkind | hkind | hkind <;> rw [hkind] <;> rfl

/-- Whatever the tokens of a stream are, balanced or not, an index that a scan builds is well formed. -/
theorem wellFormed_scan (options : ScanOptions) (stream : List Token) {index : DeclarationIndex}
    (h : (scan options (number 0 stream)).outcome = .ok index) :
    index.WellFormed (number 0 stream) where
  nodup := (scan_keeps List.nodup_nil DeclarationIndex.keptBy_distinct h).nodup_names
  mem_names := index.mem_names_iff_isSome_value?
  declared kind name := by
    rw [DeclarationIndex.value?, DeclarationIndex.declaration?, Option.isSome_map, Option.isSome_map]
  keyed := keyed_scan h
  token_kind kind name d hd := by
    obtain ⟨l, hl, rfl, hkey⟩ := exists_listing_of_scan h hd
    rw [← (Prod.mk.inj hkey).1]
    exact keyword_of_mem_streamListings hl
  placed kind hkind name d hd := by
    obtain ⟨l, hl, rfl, hkey⟩ := exists_listing_of_scan h hd
    rcases List.mem_append.mp hl with hfile | hsymbol
    · obtain ⟨hsorted, hmeaning⟩ := wellSorted_fileListings l hfile
      rw [← (Prod.mk.inj hkey).1] at hkind
      exact absurd (hsorted.meaning_eq_symbol_iff.mpr hkind) hmeaning
    · exact isPlaced_of_mem_symbolListings (numbered_number 0 stream) hsymbol

/-- The source `} namespace N; function f { class C { function m { } }`. -/
def strayStream : List Token :=
  [⟨.openTag, "<?php", 1, 0⟩, ⟨.punctuation, "\x7d", 1, 0⟩,
    ⟨.namespaceKeyword, "namespace", 2, 0⟩, ⟨.identifier, "N", 2, 0⟩, ⟨.punctuation, ";", 2, 0⟩,
    ⟨.functionKeyword, "function", 3, 0⟩, ⟨.identifier, "f", 3, 0⟩, ⟨.punctuation, "\x7b", 3, 0⟩,
    ⟨.classKeyword, "class", 4, 0⟩, ⟨.identifier, "C", 4, 0⟩, ⟨.punctuation, "\x7b", 4, 0⟩,
    ⟨.functionKeyword, "function", 5, 0⟩, ⟨.identifier, "m", 5, 0⟩, ⟨.punctuation, "\x7b", 5, 0⟩,
    ⟨.punctuation, "\x7d", 5, 0⟩, ⟨.punctuation, "\x7d", 6, 0⟩]

/-- The first closing brace closes the file, and the block of `f` never closes. Its class is in the same
namespace, and the method of the class is left out. -/
theorem wellFormed_scan_strayStream :
    ∃ index f, (scan {} (number 0 strayStream)).outcome = .ok index ∧
      index.WellFormed (number 0 strayStream) ∧
      index.names .functionKind = ["N\\f"] ∧ index.names .classKind = ["N\\C"] ∧
      index.declaration? .functionKind "N\\f" = some f ∧ f.IsPlaced (number 0 strayStream) := by
  obtain ⟨index, hscan⟩ : ∃ index, (scan {} (number 0 strayStream)).outcome = .ok index :=
    exists_ok_of_isOk (by cbv)
  have hwellFormed := wellFormed_scan {} strayStream hscan
  have hfunctions : index.names .functionKind = ["N\\f"] :=
    read_of_eq_ok (·.names .functionKind) hscan (by cbv)
  have hclasses : index.names .classKind = ["N\\C"] :=
    read_of_eq_ok (·.names .classKind) hscan (by cbv)
  have hf : (index.declaration? .functionKind "N\\f").isSome = true := by
    rw [← hwellFormed.declared, ← hwellFormed.mem_names, hfunctions]
    exact List.mem_singleton.mpr rfl
  obtain ⟨f, hf⟩ := Option.isSome_iff_exists.mp hf
  exact ⟨index, f, hscan, hwellFormed, hfunctions, hclasses, hf,
    hwellFormed.placed .functionKind (by decide) _ f hf⟩

end Reflection
