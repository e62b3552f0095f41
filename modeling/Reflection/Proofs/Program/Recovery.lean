import Reflection.Proofs.Declaration.Filing
import Reflection.Proofs.Program.Clauses
import Reflection.Proofs.Program.Places
import Reflection.Proofs.Report
import Reflection.Proofs.Table

/-!
# A scan recovers the declarations of a program

The scopes and statements of a structured program are filed one after the other. Each of them is
filed as what the program says it declares: under its kind and qualified name, with its scope, its
keyword and its documentation.

## Main definitions

* `kept?`: the declaration of a name that an index keeps.

## Main statements

* `scan_program`: the index of a structured program.
-/
namespace Reflection

open Reflection.Text Token

/-! ## Filing one after the other -/

section

variable (options : ScanOptions)

theorem fileAll_cons (index : DeclarationIndex) (l : Listing) (rest : List Listing) :
    fileAll options index (l :: rest) =
      l.define options index >>= file index l.declaration >>= fun index =>
        fileAll options index rest := by
  rw [fileAll, List.foldlM_cons]
  rfl

/-- Of some declarations the first one is defined and added, and then the others are filed. -/
theorem fileAll_cons_eq_ok_iff {index last : DeclarationIndex} {l : Listing} {rest : List Listing} :
    (fileAll options index (l :: rest)).outcome = .ok last ↔
      ∃ definition, (l.define options index).outcome = .ok definition ∧
        (fileAll options (index.add l.declaration definition).1 rest).outcome = .ok last := by
  rw [fileAll_cons, Report.outcome_bind, Report.outcome_bind]
  constructor
  · intro h
    obtain ⟨middle, hfiled, hrest⟩ := exists_ok_of_bind h
    obtain ⟨definition, hdefinition, hfile⟩ := exists_ok_of_bind hfiled
    cases hfile
    exact ⟨definition, hdefinition, hrest⟩
  · intro ⟨definition, hdefinition, hrest⟩
    rw [hdefinition]
    exact hrest

theorem fileAll_append (index : DeclarationIndex) (xs ys : List Listing) :
    fileAll options index (xs ++ ys) =
      fileAll options index xs >>= fun index => fileAll options index ys :=
  List.foldlM_append

theorem fileAll_flatMap {α : Type} (listings : α → List Listing) (index : DeclarationIndex)
    (xs : List α) :
    fileAll options index (xs.flatMap listings) =
      xs.foldlM (fun index x => fileAll options index (listings x)) index :=
  foldlM_flatMap_parts _ listings index xs

theorem fileAll_toList (index : DeclarationIndex) (l : Option Listing) :
    fileAll options index l.toList =
      match l with
      | some l => l.define options index >>= file index l.declaration
      | none => pure index := by
  cases l with
  | none => rfl
  | some l =>
    rw [Option.toList_some, fileAll_cons]
    exact bind_pure _

theorem fileAll_filterMap {α : Type} (listing : α → Option Listing) (index : DeclarationIndex)
    (xs : List α) :
    fileAll options index (xs.filterMap listing) =
      xs.foldlM (fun index x => fileAll options index (listing x).toList) index := by
  rw [fileAll, List.foldlM_filterMap]
  refine foldlM_congr_mem (fun x _ index => ?_) index
  rw [fileAll_toList]
  cases listing x <;> rfl

/-- The clauses of a statement without a fault are added one after the other. -/
theorem addClauses_map {σ α β : Type} (add : σ → β → Report ScanFault σ) (s : σ) (clause : α → β)
    (parts : List α) :
    addClauses add s ⟨parts.map clause, none⟩ = parts.foldlM (fun s part => add s (clause part)) s := by
  rw [addClauses, List.foldlM_map]
  exact bind_pure _

end

/-! ## Documentation -/

theorem not_mem_modifiers {text : String} (h : text = "\x7b" ∨ text = "\x7d" ∨ text = ";") :
    lower text ∉ structureModifiers := by
  rcases h with rfl | rfl | rfl <;> decide

/-- No documentation stands right before a place where an item may begin. -/
theorem docCommentBefore_boundary {front : List Token} (h : Boundary front) {modifiers : List String}
    (hmodifiers : modifiers ⊆ structureModifiers) :
    docCommentBefore modifiers front.reverse = "" := by
  obtain ⟨before, t, rfl, hends⟩ := h
  rcases hends with ⟨hkind, htext⟩ | ⟨rfl, hkind⟩
  · refine docCommentBefore_cut ?_ before []
    rintro (hmem | hignorable)
    · exact not_mem_modifiers htext (hmodifiers hmem)
    · simp [isIgnorable, hkind, TokenKind.isIgnorable] at hignorable
  · rw [List.nil_append, List.reverse_singleton, docCommentBefore, if_neg (by simp [hkind]),
      docCommentBefore]
    split <;> rfl

/-- The documentation of an item is that in the gap before it. -/
theorem docCommentBefore_place {front : List Token} (h : Boundary front) (g : Gap)
    {modifiers : List String} (hmodifiers : modifiers ⊆ structureModifiers) :
    docCommentBefore modifiers (front ++ g.tokens).reverse = g.docComment := by
  rw [docCommentBefore_gap, docCommentBefore_boundary h hmodifiers, String.empty_append]

namespace Program

variable (p : Program) (options : ScanOptions)

/-! ## Namespaces -/

/-- The name after the keyword of a section. -/
theorem declaredName_keyword (hnumbered : Numbered 0 p.tokens) {sec : Section}
    (hsec : sec ∈ p.sections) : declaredName p.tokens sec.keyword = sec.space := by
  obtain ⟨before, after, hsections⟩ := List.append_of_mem hsec
  let front := p.openTag :: p.block.tokens ++ before.flatMap Section.tokens
  let rest := sec.block.tokens ++ ((sec.closing.map fun ending => ending.1 :: ending.2.tokens).getD [] ++
    after.flatMap Section.tokens)
  have hsplit : p.tokens = front ++ sec.keyword :: (sec.head.tail ++ rest) := by
    rw [p.tokens_section hsections, Section.tokens, Section.head]
    simp [front, rest]
  refine declaredName_section sec (?_ : _ = sec.head ++ rest)
  rw [hsplit, tokensAfter_eq (hsplit ▸ hnumbered)]
  rfl

theorem ownedScopes_events (hnumbered : Numbered 0 p.tokens) {kind : DeclarationKind}
    (hkind : kind ≠ .functionKind) :
    ownedScopes (closedScopes (Traversal.events p.tokens)) kind = ownedScopes p.listed kind := by
  rw [← (p.events_spec hnumbered).1, listedScopes, ownedScopes_filter hkind]

theorem namespaceScopes_events (hnumbered : Numbered 0 p.tokens) :
    namespaceScopes p.tokens (closedScopes (Traversal.events p.tokens)) = p.namespaces := by
  rw [namespaceScopes, p.ownedScopes_events hnumbered (by decide), ownedScopes_namespaceKind,
    List.map_map, namespaces]
  refine List.map_congr_left fun sec hsec => ?_
  simp only [Function.comp_apply, p.declaredName_keyword hnumbered hsec]

/-- The sections that have a name are filed as namespaces. -/
theorem fileNamespaces_events (hnumbered : Numbered 0 p.tokens) (index : DeclarationIndex) :
    fileNamespaces p.tokens (closedScopes (Traversal.events p.tokens)) index =
      fileAll options index (p.sections.filterMap (Section.listing p.openTag)) := by
  rw [fileNamespaces, p.ownedScopes_events hnumbered (by decide), ownedScopes_namespaceKind,
    List.foldlM_map, fileAll_filterMap]
  refine foldlM_congr_mem (fun sec hsec index => ?_) index
  simp only [p.declaredName_keyword hnumbered hsec, fileAll_toList, Section.listing, Section.space]
  cases sec.name with
  | none => rfl
  | some n =>
    simp only [Option.map_some, Option.getD_some, if_neg n.text_ne_empty, Listing.define, pure_bind]

/-! ## Statements -/

section

variable {x : Placed} {front back : List Token}

/-- What stands around the keyword of an item. -/
theorem around_keyword (hnumbered : Numbered 0 p.tokens) {t : Token} {ts : List Token}
    (hitem : x.item.tokens = t :: ts)
    (htokens : p.tokens = front ++ (x.gap.tokens ++ x.item.tokens ++ back)) :
    tokensBefore p.tokens t = (front ++ x.gap.tokens).reverse ∧
      tokensAfter p.tokens t = ts ++ back := by
  have hsplit : p.tokens = front ++ x.gap.tokens ++ t :: (ts ++ back) := by
    rw [htokens, hitem]
    simp
  rw [hsplit] at hnumbered ⊢
  exact ⟨tokensBefore_eq hnumbered, tokensAfter_eq hnumbered⟩

/-- A statement of imports files them in order. -/
theorem fileUse_item (hnumbered : Numbered 0 p.tokens) {u : ImportItem} (hitem : x.item = .imports u)
    (htokens : p.tokens = front ++ (x.gap.tokens ++ x.item.tokens ++ back))
    (index : DeclarationIndex) :
    fileUse p.tokens index ⟨u.keyword, x.home⟩ = fileAll options index x.statementListings := by
  have hhead : x.item.tokens = u.keyword :: u.tokens.tail := by rw [hitem]; rfl
  rw [fileUse, (p.around_keyword hnumbered hhead htokens).2, readUse_eq, addClauses_map,
    Placed.statementListings, hitem, fileAll, List.foldlM_map]
  refine foldlM_congr_mem (fun c _ index => ?_) index
  simp only [Listing.define, pure_bind]

/-- A statement of constants files them in order. -/
theorem fileConst_item (hnumbered : Numbered 0 p.tokens) {c : ConstantItem}
    (hitem : x.item = .constants c)
    (htokens : p.tokens = front ++ (x.gap.tokens ++ x.item.tokens ++ back))
    (hfront : Boundary front) (hspace : p.namespaces.nameAt c.keyword.index = x.space)
    (index : DeclarationIndex) :
    fileConst options p.tokens p.namespaces index ⟨c.keyword, x.home⟩ =
      fileAll options index x.statementListings := by
  have hhead : x.item.tokens = c.keyword :: c.tokens.tail := by rw [hitem]; rfl
  obtain ⟨hbefore, hafter⟩ := p.around_keyword hnumbered hhead htokens
  have hdoc : docCommentBefore [] (tokensBefore p.tokens c.keyword) = x.gap.docComment := by
    rw [hbefore]
    exact docCommentBefore_place hfront x.gap (List.nil_subset _)
  rw [fileConst, hafter, readConst_eq, addClauses_map, Placed.statementListings, hitem, fileAll,
    List.foldlM_map]
  refine foldlM_congr_mem (fun d _ index => ?_) index
  simp only [hspace, hdoc, Listing.define, constantOf, bind_assoc, pure_bind,
    ConstantClause.declarator]

/-- The statement of an item files what the item declares. -/
theorem fileStatement_item (hnumbered : Numbered 0 p.tokens) (hx : x ∈ p.placed)
    (index : DeclarationIndex) :
    x.statements.foldlM (fileStatement options p.tokens p.namespaces) index =
      fileAll options index x.statementListings := by
  obtain ⟨front, back, htokens, hfront, hspace⟩ := p.exists_place hnumbered hx
  cases hitem : x.item with
  | braced b => simp only [Placed.statements, Placed.statementListings, hitem]; rfl
  | imports u =>
    have hstatements : x.statements = [⟨u.keyword, x.home⟩] := by rw [Placed.statements, hitem]
    rw [hstatements, List.foldlM_cons, fileStatement, if_pos u.keyword_kind,
      p.fileUse_item options hnumbered hitem htokens]
    exact bind_pure _
  | constants c =>
    have hstatements : x.statements = [⟨c.keyword, x.home⟩] := by rw [Placed.statements, hitem]
    have hmem : c.keyword ∈ x.item.tokens := by
      rw [hitem]
      exact List.mem_cons_self ..
    have hkind : ¬ c.keyword.kind = .useKeyword := by simp [c.keyword_kind]
    rw [hstatements, List.foldlM_cons, fileStatement, if_neg hkind,
      p.fileConst_item options hnumbered hitem htokens hfront (hspace _ hmem)]
    exact bind_pure _

end

end Program

/-! ## Functions and structures -/

section

variable (options : ScanOptions) (tokens : List Token) (namespaces : NamespaceScopes)

theorem fileScoped_append (xs ys : List Scope) (index : DeclarationIndex) (kind : DeclarationKind) :
    fileScoped options tokens (xs ++ ys) namespaces index kind =
      fileScoped options tokens xs namespaces index kind >>= fun index =>
        fileScoped options tokens ys namespaces index kind := by
  rw [fileScoped, ownedScopes_append, List.foldlM_append]
  rfl

/-- A scope that is not listed is not filed. -/
theorem fileScoped_unlisted {s : Scope} (hs : s.isListed = false) (index : DeclarationIndex)
    (kind : DeclarationKind) : fileScoped options tokens [s] namespaces index kind = pure index := by
  by_cases howner : ownerDeclaration? s = some kind
  · have hmethod : s.ownerKind? = some .functionKeyword ∧ s.parentKind?.any ownsMethods = true := by
      simpa [Scope.isListed, howner] using hs
    have hkind : kind = .functionKind := by
      rw [ownerDeclaration?, hmethod.1] at howner
      exact (Option.some.inj howner).symm
    obtain ⟨t, ht, -⟩ : ∃ t, s.owner = some t ∧ t.kind = .functionKeyword :=
      Option.map_eq_some_iff.mp hmethod.1
    rw [fileScoped, ownedScopes_singleton howner ht, if_pos rfl, List.foldlM_cons]
    simp only [hkind, hmethod.2, and_self, or_true, if_true, pure_bind, List.foldlM_nil]
  · have hnone : ownedScopes [s] kind = [] := by
      rw [ownedScopes, List.filterMap_cons, if_neg howner, List.filterMap_nil]
    rw [fileScoped, hnone, List.foldlM_nil]

/-- Only the listed scopes are filed. -/
theorem fileScoped_filter (closed : List Scope) (index : DeclarationIndex) (kind : DeclarationKind) :
    fileScoped options tokens closed namespaces index kind =
      fileScoped options tokens (closed.filter Scope.isListed) namespaces index kind := by
  induction closed generalizing index with
  | nil => rfl
  | cons s closed ih =>
    have hcons (rest : List Scope) : fileScoped options tokens (s :: rest) namespaces index kind =
        fileScoped options tokens [s] namespaces index kind >>= fun index =>
          fileScoped options tokens rest namespaces index kind :=
      fileScoped_append options tokens namespaces [s] rest index kind
    by_cases hlisted : s.isListed = true
    · rw [List.filter_cons_of_pos hlisted, hcons closed, hcons (closed.filter Scope.isListed)]
      exact congrArg _ (funext ih)
    · rw [List.filter_cons_of_neg hlisted, hcons closed,
        fileScoped_unlisted options tokens namespaces (Bool.eq_false_iff.mpr hlisted), pure_bind, ih]

theorem fileScoped_flatMap {α : Type} (scopes : α → List Scope) (xs : List α)
    (index : DeclarationIndex) (kind : DeclarationKind) :
    fileScoped options tokens (xs.flatMap scopes) namespaces index kind =
      xs.foldlM (fun index x => fileScoped options tokens (scopes x) namespaces index kind) index := by
  induction xs generalizing index with
  | nil => rfl
  | cons x xs ih =>
    rw [List.flatMap_cons, fileScoped_append, List.foldlM_cons]
    exact congrArg _ (funext ih)

end

namespace Program

variable (p : Program) (options : ScanOptions)

/-- No item is a method. -/
theorem not_ownsMethods_home {x : Placed} (hx : x ∈ p.placed) :
    x.home.ownerKind?.any ownsMethods = false := by
  rcases p.home_placed hx with hhome | ⟨sec, -, hhome⟩
  · simp [hhome, scope, Scope.ownerKind?, p.openTag_kind, ownsMethods]
  · rw [hhome]
    exact (Scanned.home_section p.openTag sec p.scope).not_ownsMethods

/-- The scope of an item files the function or structure. -/
theorem fileScoped_item (hnumbered : Numbered 0 p.tokens) {x : Placed} (hx : x ∈ p.placed)
    (index : DeclarationIndex) (kind : DeclarationKind) :
    fileScoped options p.tokens x.scopes p.namespaces index kind =
      fileAll options index (x.scopedListing kind).toList := by
  cases hitem : x.item with
  | braced b =>
    obtain ⟨front, back, htokens, hfront, hspace⟩ := p.exists_place hnumbered hx
    have hhead : x.item.tokens = b.keyword :: b.tokens.tail := by rw [hitem]; rfl
    obtain ⟨hbefore, hafter⟩ := p.around_keyword hnumbered hhead htokens
    have hscopes : x.scopes = [b.scope x.home] := by rw [Placed.scopes, hitem]
    have howner : ownerDeclaration? (b.scope x.home) = some b.kind := b.ofOwner?_keyword
    rw [hscopes, fileScoped,
      ownedScopes_singleton howner (rfl : (b.scope x.home).owner = some b.keyword), fileAll_toList,
      Placed.scopedListing, hitem]
    by_cases hkind : b.kind = kind
    · have hname : declaredName p.tokens b.keyword = b.name.text := by
        refine declaredName_braced b (?_ : _ = b.beforeName ++ b.name :: (b.header ++ b.opening ::
          (b.body ++ b.closing :: back)))
        rw [hafter, BracedItem.tokens]
        simp
      have hnonempty : b.name.text ≠ "" := fun hempty =>
        toList_ne_nil_of_isLabel (Bool.and_eq_true_iff.mp b.name_isNameStart).2 (by rw [hempty]; rfl)
      have hfiled : ¬ (b.name.text = "" ∨ kind = .functionKind ∧
          (b.scope x.home).parentKind?.any ownsMethods = true) := by
        have hmethod : (b.scope x.home).parentKind?.any ownsMethods = false :=
          p.not_ownsMethods_home hx
        simp [hnonempty, hmethod]
      have hdoc : docCommentBefore (if kind = .functionKind then [] else structureModifiers)
          (tokensBefore p.tokens b.keyword) = x.gap.docComment := by
        rw [hbefore]
        refine docCommentBefore_place hfront x.gap ?_
        split
        · exact List.nil_subset _
        · exact List.Subset.refl _
      have hkeyword : p.namespaces.nameAt b.keyword.index = x.space :=
        hspace b.keyword (by rw [hhead]; exact List.mem_cons_self ..)
      rw [if_pos hkind, List.foldlM_cons]
      simp only [hname, if_neg hfiled, hdoc, hkeyword, hkind, if_true, Listing.define,
        List.foldlM_nil, bind_pure]
    · simp only [if_neg hkind, List.foldlM_nil]
  | _ => simp only [Placed.scopes, Placed.scopedListing, hitem]; rfl

/-- The scopes that close file the functions and structures of a kind in order. -/
theorem fileScoped_events (hnumbered : Numbered 0 p.tokens) (index : DeclarationIndex)
    {kind : DeclarationKind} (hkind : kind ≠ .namespaceKind) :
    fileScoped options p.tokens (closedScopes (Traversal.events p.tokens)) p.namespaces index kind =
      fileAll options index (p.placed.filterMap (Placed.scopedListing kind)) := by
  have hlisted : (closedScopes (Traversal.events p.tokens)).filter Scope.isListed = p.listed :=
    (p.events_spec hnumbered).1
  have hscopes : fileScoped options p.tokens p.listed p.namespaces index kind =
      fileScoped options p.tokens (p.placed.flatMap Placed.scopes) p.namespaces index kind := by
    rw [fileScoped, fileScoped, p.ownedScopes_of_ne hkind, ownedScopes_placed]
  rw [fileScoped_filter, hlisted, hscopes, fileScoped_flatMap, fileAll_filterMap]
  exact foldlM_congr_mem (fun x hx index => p.fileScoped_item options hnumbered hx index kind) index

/-- A scan files the declarations of a program. -/
theorem scan_tokens (hnumbered : Numbered 0 p.tokens) :
    scan options p.tokens = fileAll options {} p.declarations := by
  have hwarn : (Report.warn [] : Report ScanFault Unit) = pure () := rfl
  have hstatements (index : DeclarationIndex) :
      (statements p.tokens (Traversal.events p.tokens)).foldlM
          (fileStatement options p.tokens p.namespaces) index =
        fileAll options index (p.placed.flatMap Placed.statementListings) := by
    rw [p.statements_events hnumbered, foldlM_flatMap_parts, fileAll_flatMap]
    exact foldlM_congr_mem (fun x hx index => p.fileStatement_item options hnumbered hx index) index
  have hscoped (index : DeclarationIndex) :
      scopedKinds.foldlM (fileScoped options p.tokens (closedScopes (Traversal.events p.tokens))
          p.namespaces) index =
        fileAll options index
          (scopedKinds.flatMap fun kind => p.placed.filterMap (Placed.scopedListing kind)) := by
    rw [fileAll_flatMap]
    refine foldlM_congr_mem (fun kind hkind index => p.fileScoped_events options hnumbered index ?_)
      index
    rintro rfl
    exact absurd hkind (by decide)
  rw [scan, p.namespaceScopes_events hnumbered, (p.events_spec hnumbered).2.2.1, hwarn, pure_bind,
    p.fileNamespaces_events options hnumbered, declarations, fileAll_append, fileAll_append,
    bind_assoc]
  simp only [hstatements, hscoped]

end Program

/-! ## What an index keeps -/

/-- The kind and name under which a declaration is filed. -/
def Listing.key (l : Listing) : DeclarationKind × String := (l.declaration.kind, l.declaration.name)

/-- The declaration of a kind and name that is kept of a list: of namespaces the first one, and
otherwise the last one. -/
def kept? (kind : DeclarationKind) (name : String) (listings : List Listing) : Option Declaration :=
  let same := (listings.filter (·.key == (kind, name))).map Listing.declaration
  if kind = .namespaceKind then same.head? else same.getLast?

theorem kept?_concat (kind : DeclarationKind) (name : String) (listings : List Listing)
    (l : Listing) :
    kept? kind name (listings ++ [l]) =
      if l.key = (kind, name) then
        if kind = .namespaceKind then (kept? kind name listings).or (some l.declaration)
        else some l.declaration
      else kept? kind name listings := by
  by_cases hkey : l.key = (kind, name)
  · have hsame : [l].filter (·.key == (kind, name)) = [l] := by simp [hkey]
    simp only [kept?, List.filter_append, hsame, List.map_append, List.map_singleton, if_pos hkey,
      List.head?_append, List.head?_singleton, List.getLast?_concat]
    split <;> rfl
  · have hnone : [l].filter (·.key == (kind, name)) = [] := by simp [hkey]
    simp only [kept?, List.filter_append, hnone, List.append_nil, if_neg hkey]

section

variable {options : ScanOptions} {index : DeclarationIndex} {listings : List Listing}

/-- What holds of the empty index and is kept as declarations are added holds of the index of all
declarations. -/
theorem fileAll_induction {P : List Listing → DeclarationIndex → Prop} (hnil : P [] {})
    (hadd : ∀ listings l before definition, P listings before →
      P (listings ++ [l]) (before.add l.declaration definition).1)
    (h : (fileAll options {} listings).outcome = .ok index) : P listings index := by
  -- The induction is on the declarations that are left, whatever has been added before.
  have hrun : ∀ (rest done : List Listing) (before : DeclarationIndex), P done before →
      (fileAll options before rest).outcome = .ok index → P (done ++ rest) index := by
    intro rest
    induction rest with
    | nil =>
      intro done before hdone hbefore
      cases hbefore
      rwa [List.append_nil]
    | cons l rest ih =>
      intro done before hdone hbefore
      obtain ⟨definition, -, hrest⟩ := (fileAll_cons_eq_ok_iff options).mp hbefore
      rw [List.append_cons]
      exact ih _ _ (hadd done l before definition hdone) hrest
  exact hrun listings [] {} hnil h

theorem keys_add (index : DeclarationIndex) (d : Declaration) (definition : Definition) :
    Table.keys (index.add d definition).1.entries =
      if (d.kind, d.name) ∈ Table.keys index.entries then Table.keys index.entries
      else Table.keys index.entries ++ [(d.kind, d.name)] := by
  by_cases hspace : index.contains d.kind d.name = true ∧ d.kind = .namespaceKind
  · have hmem := (Table.contains_iff_mem_keys index.entries (d.kind, d.name)).mp hspace.1
    rw [if_pos hmem, DeclarationIndex.add, if_pos (by simpa using hspace)]
  · rw [DeclarationIndex.add, if_neg (by simpa using hspace), Table.keys_insert]
    congr

/-- The keys of an index are those of the declarations, in the order of their first appearance. -/
theorem keys_fileAll (h : (fileAll options {} listings).outcome = .ok index) :
    Table.keys index.entries = (listings.map Listing.key).eraseDups := by
  refine fileAll_induction
    (P := fun listings index => Table.keys index.entries = (listings.map Listing.key).eraseDups) rfl
    (fun listings l before definition ih => ?_) h
  rw [keys_add, ih, List.map_append, List.map_singleton, Table.eraseDups_concat]
  simp only [List.mem_eraseDups]
  rfl

/-- Of the declarations under one name an index keeps one. -/
theorem declaration?_fileAll (h : (fileAll options {} listings).outcome = .ok index)
    (kind : DeclarationKind) (name : String) :
    index.declaration? kind name = kept? kind name listings := by
  have hnil : DeclarationIndex.declaration? {} kind name = kept? kind name [] := by
    simp [DeclarationIndex.declaration?, DeclarationIndex.find?, Table.find?, kept?]
  refine fileAll_induction
    (P := fun listings index => index.declaration? kind name = kept? kind name listings) hnil
    (fun listings l before definition ih => ?_) h
  rw [DeclarationIndex.declaration?_add, kept?_concat, ih]
  rfl

/-- Without evaluation only what a symbol stands for can fail. -/
theorem exists_ok_fileAll (heval : options.evaluates = false)
    (hdefine : ∀ kind name, ∃ d, options.define kind name = .ok d) (index : DeclarationIndex) :
    ∃ index', (fileAll options index listings).outcome = .ok index' := by
  have hstep : ∀ (l : Listing) (index : DeclarationIndex),
      ∃ d, (l.define options index).outcome = .ok d := by
    intro l index
    simp only [Listing.define]
    cases l.meaning with
    | text s => exact ⟨_, rfl⟩
    | constant space d => simp [constantOf, constantValue, heval]
    | symbol =>
      obtain ⟨d, hd⟩ := hdefine l.declaration.kind l.declaration.name
      exact ⟨d, by rw [hd]; rfl⟩
  induction listings generalizing index with
  | nil => exact ⟨_, rfl⟩
  | cons l rest ih =>
    obtain ⟨d, hd⟩ := hstep l index
    obtain ⟨index', hrest⟩ := ih (index.add l.declaration d).1
    exact ⟨index', (fileAll_cons_eq_ok_iff options).mpr ⟨d, hd, hrest⟩⟩

end

/-- A scan recovers the declarations of a structured program: it files each of them as the program
declares it, the index has their names and keeps one declaration of each, and a scan that evaluates
nothing fails only where a function or structure stands for nothing. -/
theorem scan_program (options : ScanOptions) (p : Program) (hnumbered : Numbered 0 p.tokens) :
    scan options p.tokens = fileAll options {} p.declarations ∧
      (∀ index, (scan options p.tokens).outcome = .ok index →
        Table.keys index.entries = (p.declarations.map Listing.key).eraseDups ∧
          ∀ kind name, index.declaration? kind name = kept? kind name p.declarations) ∧
      (options.evaluates = false → (∀ kind name, ∃ d, options.define kind name = .ok d) →
        ∃ index, (scan options p.tokens).outcome = .ok index) := by
  rw [p.scan_tokens options hnumbered]
  refine ⟨rfl, fun index hindex => ?_, fun heval hdefine => exists_ok_fileAll heval hdefine {}⟩
  exact ⟨keys_fileAll hindex, fun kind name => declaration?_fileAll hindex kind name⟩

/-- The function `function &total() { }` of a shop. -/
def shopFunction : BracedItem where
  kind := .functionKind
  keyword := ⟨.functionKeyword, "function", 5, 14⟩
  ofOwner?_keyword := rfl
  kind_ne := by decide
  gap := ⟨[], by decide⟩
  ampersand := some (⟨.punctuation, "&", 5, 15⟩, ⟨[], by decide⟩)
  ampersand_isPunct := by decide
  name := ⟨.identifier, "total", 5, 16⟩
  name_isNameStart := by decide
  header := [⟨.punctuation, "(", 5, 17⟩, ⟨.punctuation, ")", 5, 18⟩]
  header_isPlain := by decide
  header_extendsName := by decide
  opening := ⟨.punctuation, "\x7b", 5, 19⟩
  opening_isPunct := by decide
  body := []
  body_balanced := .nil
  closing := ⟨.punctuation, "\x7d", 5, 20⟩
  closing_isPunct := by decide

/-- The class `class Cart { function total { } }` of a shop. -/
def shopClass : BracedItem where
  kind := .classKind
  keyword := ⟨.classKeyword, "class", 6, 21⟩
  ofOwner?_keyword := rfl
  kind_ne := by decide
  gap := ⟨[], by decide⟩
  ampersand := none
  ampersand_isPunct := by decide
  name := ⟨.identifier, "Cart", 6, 22⟩
  name_isNameStart := by decide
  header := []
  header_isPlain := by decide
  header_extendsName := by decide
  opening := ⟨.punctuation, "\x7b", 6, 23⟩
  opening_isPunct := by decide
  body := [⟨.functionKeyword, "function", 7, 24⟩, ⟨.identifier, "total", 7, 25⟩,
    ⟨.punctuation, "\x7b", 7, 26⟩, ⟨.punctuation, "\x7d", 7, 27⟩]
  body_balanced := by
    refine .other (by decide) (by decide) (by decide) (.other (by decide) (by decide) (by decide) ?_)
    exact .block (by decide) .nil (by decide) .nil
  closing := ⟨.punctuation, "\x7d", 8, 28⟩
  closing_isPunct := by decide

/-- A shop in a namespace, with the import `use Money\Price;` and the constant `const RATE = 3;`. -/
def shop : Program where
  openTag := ⟨.openTag, "<?php", 1, 0⟩
  openTag_kind := rfl
  block := ⟨[], ⟨[], by decide⟩⟩
  sections := [{
    keyword := ⟨.namespaceKeyword, "namespace", 2, 1⟩
    keyword_kind := rfl
    before := ⟨[], by decide⟩
    name := some ⟨⟨.identifier, "Shop", 2, 2⟩, by decide, [], by decide⟩
    after := ⟨[], by decide⟩
    opening := ⟨.punctuation, ";", 2, 3⟩
    opening_isPunct := by decide
    closing := none
    closing_isPunct := by decide
    block := {
      items := [
        (⟨[], by decide⟩, .imports {
          keyword := ⟨.useKeyword, "use", 3, 4⟩
          keyword_kind := rfl
          word := none
          word_kind := by decide
          clauses := {
            first := {
              before := ⟨[], by decide⟩
              lead := []
              lead_isNameSeparator := by decide
              name := ⟨⟨.identifier, "Money", 3, 5⟩, by decide,
                [(⟨.separator, "\\", 3, 6⟩, ⟨.identifier, "Price", 3, 7⟩)], by decide⟩
              after := ⟨[], by decide⟩
              renamed := none
              renamed_isAlias := by simp }
            more := []
            comma_isPunct := by simp }
          semicolon := ⟨.punctuation, ";", 3, 8⟩
          semicolon_isPunct := by decide }),
        (⟨[], by decide⟩, .constants {
          keyword := ⟨.constKeyword, "const", 4, 9⟩
          keyword_kind := rfl
          clauses := {
            first := {
              before := []
              before_isPlain := by decide
              name := ⟨.identifier, "RATE", 4, 10⟩
              name_isIdentifier := by decide
              after := ⟨[], by decide⟩
              equals := ⟨.punctuation, "=", 4, 11⟩
              equals_isPunct := by decide
              value := [⟨.numberLiteral, "3", 4, 12⟩]
              value_isPlain := by decide
              value_bracketed := .other (by decide) (by decide) (.nil true) }
            more := []
            comma_isPunct := by simp }
          semicolon := ⟨.punctuation, ";", 4, 13⟩
          semicolon_isPunct := by decide }),
        (⟨[], by decide⟩, .braced shopFunction), (⟨[], by decide⟩, .braced shopClass)]
      trailing := ⟨[], by decide⟩ } }]

/-- The method of a class is not filed. -/
theorem scan_program_shop : Numbered 0 shop.tokens ∧
    ∃ index, (scan {} shop.tokens).outcome = .ok index ∧
      Table.keys index.entries = [(.namespaceKind, "Shop"), (.useKind, "Money\\Price"),
        (.constKind, "Shop\\RATE"), (.functionKind, "Shop\\total"), (.classKind, "Shop\\Cart")] := by
  have hnumbered : Numbered 0 shop.tokens := by
    repeat' constructor
  obtain ⟨-, hrecovered, hsucceeds⟩ := scan_program {} shop hnumbered
  obtain ⟨index, hindex⟩ := hsucceeds rfl fun kind name => ⟨_, rfl⟩
  refine ⟨hnumbered, index, hindex, (hrecovered index hindex).1.trans ?_⟩
  decide

end Reflection
