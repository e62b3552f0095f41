import Reflection.Proofs.Declaration.Contents
import Reflection.Proofs.Program.Places
import Reflection.Proofs.Scope.Pairing

/-!
# Declarations of paired tokens

What a stream declares is read around the keywords that own scopes or begin statements. Where the keywords
of two streams are paired and read alike, the streams declare the same, in the same order.

## Main definitions

* `Pairing.SameReading`: paired keywords are read alike.
* `Pairing.SameSpaces`: paired positions lie in namespaces of the same name.

## Main statements

* `Pairing.sameSpaces`: namespaces of paired scopes.
* `Pairing.contents_namespaces`, `Pairing.contents_statements`, `Pairing.contents_scoped`: what paired
  keywords declare.
-/
namespace Reflection

open Token

namespace Pairing

/-- What paired keywords of two streams declare, and how it is documented, is read alike. Of the keywords of
constants this is asked only where they begin a statement of the file, among the events of the first
stream. -/
structure SameReading (p : Pairing) (tokens tokens' : List Token) (events : List Event) : Prop where
  statement : ∀ {t t'}, p.Paired t t' → isStatementKeyword tokens' t' = isStatementKeyword tokens t
  imports : ∀ {t t'}, p.Paired t t' → t.kind = .useKeyword →
    SameImports (readUse t.line (tokensAfter tokens t)) (readUse t'.line (tokensAfter tokens' t'))
  constants : ∀ {t t' scope}, p.Paired t t' → (t, scope) ∈ statementPasses tokens events →
    t.kind = .constKeyword →
    SameConstants (readConst t.line (lastLine tokens) (tokensAfter tokens t))
      (readConst t'.line (lastLine tokens') (tokensAfter tokens' t'))
  name : ∀ {t t'}, p.Paired t t' → (DeclarationKind.ofOwner? t.kind).isSome →
    declaredName tokens' t' = declaredName tokens t
  documentation : ∀ {t t'}, p.Paired t t' → ∀ skipped ∈ [[], structureModifiers],
    docCommentBefore skipped (tokensBefore tokens' t') =
      docCommentBefore skipped (tokensBefore tokens t)

/-- Paired positions lie in namespaces of the same name. -/
def SameSpaces (p : Pairing) (namespaces namespaces' : NamespaceScopes) : Prop :=
  ∀ t t', p.Paired t t' → namespaces'.nameAt t'.index = namespaces.nameAt t.index

variable {p : Pairing} {tokens tokens' : List Token} {events : List Event} {closed closed' : List Scope}
  {namespaces namespaces' : NamespaceScopes} {kind : DeclarationKind}

theorem isFileLevel_eq {scope scope' : Option Scope} (h : Option.Rel p.Scopes scope scope') :
    isFileLevel scope' = isFileLevel scope := by
  cases h with
  | none => rfl
  | some h => simp only [isFileLevel, Option.all_some, h.level, h.ownerKind?_eq]

/-! ## Scopes and their owners -/

/-- Paired keywords that declare something of a kind, with their scopes. -/
def Owned (p : Pairing) (kind : DeclarationKind) (o o' : Token × Scope) : Prop :=
  p.Paired o.1 o'.1 ∧ p.Scopes o.2 o'.2 ∧ DeclarationKind.ofOwner? o.1.kind = some kind

theorem ownerDeclaration?_eq {s s' : Scope} (h : p.Scopes s s') :
    ownerDeclaration? s' = ownerDeclaration? s := by
  rw [ownerDeclaration?, ownerDeclaration?, h.ownerKind?_eq]

/-- Paired scopes have paired owners. -/
theorem ownedScopes_paired (h : List.Forall₂ p.Scopes closed closed') (kind : DeclarationKind) :
    List.Forall₂ (p.Owned kind) (ownedScopes closed kind) (ownedScopes closed' kind) := by
  induction h with
  | nil => exact .nil
  | @cons s s' rest rest' hscope _ ih =>
    unfold ownedScopes at ih ⊢
    rw [List.filterMap_cons, List.filterMap_cons, ownerDeclaration?_eq hscope]
    by_cases hkind : ownerDeclaration? s = some kind
    · rw [if_pos hkind, if_pos hkind]
      have howner := hscope.owner
      have hof : s.ownerKind?.bind DeclarationKind.ofOwner? = some kind := hkind
      rw [Scope.ownerKind?] at hof
      cases ht : s.owner with
      | none =>
        rw [ht] at hof
        cases hof
      | some t =>
        rw [ht] at howner hof
        cases ht' : s'.owner with
        | none =>
          rw [ht'] at howner
          cases howner
        | some t' =>
          rw [ht'] at howner
          cases howner with
          | some hpaired => exact .cons ⟨hpaired, hscope, hof⟩ ih
    · rw [if_neg hkind, if_neg hkind]
      exact ih

/-- The scopes that close in paired events are paired. -/
theorem closedScopes_paired {events' : List Event} (h : List.Forall₂ p.Events events events') :
    List.Forall₂ p.Scopes (closedScopes events) (closedScopes events') := by
  induction h with
  | nil => exact .nil
  | cons hevent _ ih =>
    cases hevent with
    | closed hscope => exact .cons hscope ih
    | _ => exact ih

/-! ## Namespaces -/

/-- Paired scopes of namespaces of one name. -/
def SameSpace (p : Pairing) (e e' : Scope × String) : Prop := p.Scopes e.1 e'.1 ∧ e'.2 = e.2

theorem innermost_paired {t t' : Token} (ht : p.Paired t t') {found found' : Option (Scope × String)}
    (hfound : Option.Rel p.SameSpace found found') {e e' : Scope × String} (he : p.SameSpace e e') :
    Option.Rel p.SameSpace (innermost t.index found e) (innermost t'.index found' e') := by
  have hdeeper : found'.all (·.1.level < e'.1.level) = found.all (·.1.level < e.1.level) := by
    cases hfound with
    | none => rfl
    | some hother => simp only [Option.all_some, hother.1.level, he.1.level]
  rw [innermost, innermost, he.1.contains_eq ht, hdeeper]
  split
  · exact .some he
  · exact hfound

/-- Paired scopes of namespaces of the same names. -/
theorem sameSpaces_of_paired (h : List.Forall₂ p.SameSpace namespaces namespaces') :
    p.SameSpaces namespaces namespaces' := by
  intro t t' ht
  have hfold {found found' : Option (Scope × String)} (hfound : Option.Rel p.SameSpace found found') :
      Option.Rel p.SameSpace (namespaces.foldl (innermost t.index) found)
        (namespaces'.foldl (innermost t'.index) found') := by
    induction h generalizing found found' with
    | nil => exact hfound
    | cons he _ ih => exact ih (innermost_paired ht hfound he)
  have hend := hfold .none
  rw [NamespaceScopes.nameAt, NamespaceScopes.nameAt]
  revert hend
  generalize namespaces.foldl (innermost t.index) none = last
  generalize namespaces'.foldl (innermost t'.index) none = last'
  intro hend
  cases hend with
  | none => rfl
  | some he => exact he.2

/-- The namespaces of paired scopes. -/
theorem SameReading.sameSpaces (h : p.SameReading tokens tokens' events)
    (howned : List.Forall₂ (p.Owned .namespaceKind) (ownedScopes closed .namespaceKind)
      (ownedScopes closed' .namespaceKind)) :
    p.SameSpaces (namespaceScopes tokens closed) (namespaceScopes tokens' closed') := by
  refine sameSpaces_of_paired ?_
  rw [namespaceScopes, namespaceScopes, List.forall₂_map_left_iff, List.forall₂_map_right_iff]
  refine howned.imp fun o o' ho => ?_
  obtain ⟨hpaired, hscope, hkind⟩ := ho
  exact ⟨hscope, h.name hpaired (by rw [hkind]; rfl)⟩

/-! ## Contents -/

/-- What lists of related elements give, element by element, is the same if it is for related
elements. -/
theorem filterMap_eq_of_forall₂ {α β γ : Type} {R : α → β → Prop} {f : α → Option γ} {g : β → Option γ}
    {xs : List α} {ys : List β} (h : List.Forall₂ R xs ys) (hstep : ∀ {x y}, R x y → g y = f x) :
    ys.filterMap g = xs.filterMap f := by
  induction h with
  | nil => rfl
  | cons hxy _ ih => rw [List.filterMap_cons, List.filterMap_cons, hstep hxy, ih]

/-- Paired namespaces are declared alike. -/
theorem SameReading.contents_namespaces (h : p.SameReading tokens tokens' events)
    (howned : List.Forall₂ (p.Owned .namespaceKind) (ownedScopes closed .namespaceKind)
      (ownedScopes closed' .namespaceKind)) :
    (namespaceListings tokens' closed').map Listing.content =
      (namespaceListings tokens closed).map Listing.content := by
  rw [namespaceListings, namespaceListings, List.map_filterMap, List.map_filterMap]
  refine filterMap_eq_of_forall₂ howned fun ho => ?_
  obtain ⟨hpaired, hscope, hkind⟩ := ho
  have hname := h.name hpaired (by rw [hkind]; rfl)
  dsimp only
  rw [hname]
  split <;> rfl

/-- Paired functions and structures are declared alike. -/
theorem SameReading.contents_scoped (h : p.SameReading tokens tokens' events)
    (hspaces : p.SameSpaces namespaces namespaces')
    (howned : List.Forall₂ (p.Owned kind) (ownedScopes closed kind) (ownedScopes closed' kind)) :
    (scopedListings tokens' closed' namespaces' kind).map Listing.content =
      (scopedListings tokens closed namespaces kind).map Listing.content := by
  rw [scopedListings, scopedListings, List.map_filterMap, List.map_filterMap]
  refine filterMap_eq_of_forall₂ howned fun ho => ?_
  obtain ⟨hpaired, hscope, hkind⟩ := ho
  have hname := h.name hpaired (by rw [hkind]; rfl)
  have hspace := hspaces _ _ hpaired
  have hmodifiers : (if kind = .functionKind then [] else structureModifiers) ∈
      [[], structureModifiers] := by
    split <;> simp
  have hdoc := h.documentation hpaired _ hmodifiers
  dsimp only
  rw [hname, hscope.parentKind?_eq]
  split
  · rfl
  · simp only [Option.map_some, Listing.content, hspace, hdoc]

/-- The clauses of paired statements are declared alike, and both or neither of the statements are
faulty. -/
theorem SameReading.contents_statement (h : p.SameReading tokens tokens' events)
    (hspaces : p.SameSpaces namespaces namespaces') (s s' : Statement) {scope : Option Scope}
    (hpaired : p.Paired s.token s'.token) (hpass : (s.token, scope) ∈ statementPasses tokens events) :
    (statementListings tokens' namespaces' s').map Listing.content =
        (statementListings tokens namespaces s).map Listing.content ∧
      (statementFault? tokens' s').isSome = (statementFault? tokens s).isSome := by
  have hkind := kind_eq hpaired
  by_cases huse : s.token.kind = .useKeyword
  · obtain ⟨hitems, hfault⟩ := h.imports hpaired huse
    simp only [statementListings, statementFault?, hkind, huse, if_true, useListings, hitems, hfault,
      List.map_map, Listing.content, Function.comp_def, Meaning.unplaced, and_self]
  · have hconst : s.token.kind = .constKeyword := by
      have hkeyword := (mem_statementPasses hpass).2.1
      simp only [isStatementKeyword, beq_eq_false_iff_ne.mpr huse, Bool.false_or,
        Bool.and_eq_true, beq_iff_eq] at hkeyword
      exact hkeyword.1
    obtain ⟨hitems, hfault⟩ := h.constants hpaired hpass hconst
    have hdoc := h.documentation hpaired [] (by simp)
    have hspace := hspaces _ _ hpaired
    -- What a constant says depends on its declarator without places.
    have hcontents (space docComment : String) (t : Token) (scope : Scope) (items : List Declarator) :
        (items.map fun d => (⟨⟨.constKind, Name.join space d.name.text, scope, t, docComment⟩,
          .constant space d⟩ : Listing)).map Listing.content =
        (items.map Declarator.unplaced).map fun d =>
          ⟨.constKind, Name.join space d.name.text, docComment, .constant space d⟩ := by
      rw [List.map_map, List.map_map]
      rfl
    simp only [statementListings, statementFault?, hkind, huse, if_false, constListings, hfault,
      hdoc, hspace, hcontents, hitems, and_self]

/-! ## Statements of a stretch -/

/-- Paired keywords of statements. -/
def Stated (p : Pairing) (tokens : List Token) (events : List Event) (pass pass' : Token × Option Scope) :
    Prop :=
  p.Paired pass.1 pass'.1 ∧ pass ∈ statementPasses tokens events

/-- Paired events pass paired keywords of statements. -/
theorem SameReading.statementPasses_paired (h : p.SameReading tokens tokens' events)
    {part part' : List Event} (hpart : List.Forall₂ p.Events part part') (hsubset : part ⊆ events) :
    List.Forall₂ (p.Stated tokens events) (statementPasses tokens part)
      (statementPasses tokens' part') := by
  induction hpart with
  | nil => exact .nil
  | @cons e e' rest rest' hevent _ ih =>
    obtain ⟨hfirst, hrest⟩ := List.cons_subset.mp hsubset
    have happend (tokens : List Token) (e : Event) (rest : List Event) :
        statementPasses tokens (e :: rest) = statementPasses tokens [e] ++ statementPasses tokens rest :=
      statementPasses_append tokens [e] rest
    have hone : List.Forall₂ (p.Stated tokens events) (statementPasses tokens [e])
        (statementPasses tokens' [e']) := by
      cases hevent with
      | passed hpaired hscope =>
        rw [statementPasses_passed, statementPasses_passed, h.statement hpaired, isFileLevel_eq hscope]
        split
        · rename_i hkeyword
          exact .cons ⟨hpaired, List.mem_filterMap.mpr ⟨_, hfirst, if_pos hkeyword⟩⟩ .nil
        · exact .nil
      | _ => exact .nil
    rw [happend tokens e rest, happend tokens' e' rest']
    exact List.rel_append hone (ih hrest)

/-- The statement at a keyword that was passed. -/
def statementAt (closed : List Scope) (pass : Token × Option Scope) : Statement :=
  ⟨pass.1, (pass.2.map (closedForm closed)).getD {}⟩

/-- Paired statements are declared alike, and faulty alike. -/
theorem SameReading.contents_statements (h : p.SameReading tokens tokens' events)
    (hspaces : p.SameSpaces namespaces namespaces') {passes passes' : List (Token × Option Scope)}
    (hpasses : List.Forall₂ (p.Stated tokens events) passes passes') (closed closed' : List Scope) :
    (passes'.flatMap fun pass =>
        (statementListings tokens' namespaces' (statementAt closed' pass)).map Listing.content) =
      (passes.flatMap fun pass =>
        (statementListings tokens namespaces (statementAt closed pass)).map Listing.content) ∧
    ((∀ pass ∈ passes', statementFault? tokens' (statementAt closed' pass) = none) ↔
      ∀ pass ∈ passes, statementFault? tokens (statementAt closed pass) = none) := by
  induction hpasses with
  | nil => simp
  | @cons pass pass' rest rest' hpass _ ih =>
    obtain ⟨hcontents, hfault⟩ := h.contents_statement hspaces
      (statementAt closed pass) (statementAt closed' pass') hpass.1 hpass.2
    have hnone : statementFault? tokens' (statementAt closed' pass') = none ↔
        statementFault? tokens (statementAt closed pass) = none := by
      rw [← Option.not_isSome_iff_eq_none, hfault, Option.not_isSome_iff_eq_none]
    rw [List.flatMap_cons, List.flatMap_cons, hcontents, ih.1, List.forall_mem_cons,
      List.forall_mem_cons, hnone, ih.2]
    exact ⟨rfl, Iff.rfl⟩

end Pairing
end Reflection
