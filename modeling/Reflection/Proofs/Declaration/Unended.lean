import Reflection.Proofs.Declaration.GroupImport

/-!
# Import statements without their ends

The semicolon of an import statement may be replaced by another token that ends an import. What the tokens
of the statement declare is the same, and so are the scopes after them; only the word for functions may go
on waiting for a block.

## Main definitions

* `Unended`: the tokens of an import statement without its semicolon.

## Main statements

* `ImportItem.unended`, `GroupImport.isUnended`: both forms of import statements.
-/
namespace Reflection

open Token

/-- A token at which the last import of a statement ends. -/
structure Token.EndsImports (t : Token) : Prop extends t.EndsImport where
  not_comma : t.isPunct "," = false

theorem Token.endsImports_of_semicolon {t : Token} (h : t.isPunct ";" = true) : t.EndsImports where
  toEndsImport := endsImport_of_isPunct h
  not_comma := by rw [isPunct_of_isPunct h]; rfl

/-- Tokens of an import without its semicolon. Keywords among them declare the same with any end, and no
constants of the file. The scopes around them stay open, and a function may wait after them. -/
structure Unended (ts : List Token) (function? : Option Token) : Prop where
  selfContained : SelfContained ts
  function : ∀ t ∈ function?, t.kind = .functionKeyword
  state : ∀ {home outer}, Home home outer → ∀ previous beyond, ∃ previous',
    (Traversal.run beyond ⟨home :: outer, none, previous⟩ ts).1 = ⟨home :: outer, function?, previous'⟩
  reads : ∀ {pre rest t}, ts = pre ++ t :: rest → t.kind ≠ .constKeyword →
    ∀ {u v : Token}, u.EndsImports → v.EndsImports → ∀ us vs,
      ReadsAlike t.kind (rest ++ u :: us) (rest ++ v :: vs)
  constants : ∀ {home outer}, Home home outer → ∀ {first}, Numbered first ts →
    ∀ {pre rest t}, ts = pre ++ t :: rest → t.kind = .constKeyword → ∀ {previous beyond scope},
      .passed t scope ∈ (Traversal.run beyond ⟨home :: outer, none, previous⟩ ts).2 →
      isFileLevel scope = true → ∀ front, followsUse (front ++ pre) = true

/-! ## Keywords of imports -/

theorem selfContained_of_forall {ts : List Token} (h : ∀ t ∈ ts, t.kind ≠ .namespaceKeyword) :
    SelfContained ts := fun t ht => h t (List.mem_of_mem_filter (List.mem_of_getLast? ht))

theorem SelfContained.append {xs ys : List Token} (hxs : SelfContained xs) (hys : SelfContained ys) :
    SelfContained (xs ++ ys) := by
  intro t ht
  rw [significant, List.filter_append, ← significant, ← significant, List.getLast?_append] at ht
  cases hlast : (significant ys).getLast? with
  | none =>
    rw [hlast, Option.none_or] at ht
    exact hxs t ht
  | some u =>
    rw [hlast, Option.some_or] at ht
    exact hys t (hlast.trans ht)

/-- A keyword that declares nothing by itself is read alike before anything. -/
theorem ReadsAlike.of_not {kind : TokenKind} (h : kind.isDeclaration = false) (after after' : List Token) :
    ReadsAlike kind after after' := by
  cases kind <;> trivial

theorem kind_ne_namespace_of_isPlain {t : Token} (h : t.isPlain = true) : t.kind ≠ .namespaceKeyword := by
  intro hkind
  have hdeclares := kind_of_isPlain h
  rw [hkind] at hdeclares
  cases hdeclares

/-- Neither keyword at the beginning of an import is that of a namespace. -/
theorem ImportHead.kind_ne_namespace (i : ImportHead) : ∀ t ∈ i.head, t.kind ≠ .namespaceKeyword := by
  intro t ht hkind
  obtain ⟨pre, rest, hsplit⟩ := List.append_of_mem ht
  obtain ⟨-, rfl, -⟩ | ⟨part, hpart, -, rfl, -⟩ := i.head_split hsplit (by rw [hkind]; rfl)
  · rw [i.keyword_kind] at hkind
    cases hkind
  · rcases i.word_kind part hpart with hword | hword <;> rw [hkind] at hword <;> cases hword

/-! ## Imports one by one -/

namespace ImportItem

variable (u : ImportItem)

/-- The tokens of an import statement, the semicolon left out. -/
def unended : List Token := u.importHead.head ++ u.clauses.tokens ImportClause.tokens

theorem tokens_eq_unended : u.tokens = u.unended ++ [u.semicolon] := by
  rw [tokens_eq]
  rfl

theorem isPlain_clauses : ∀ t ∈ u.clauses.tokens ImportClause.tokens, t.isPlain = true :=
  Scanned.isPlain_parts Scanned.isPlain_import u.clauses

theorem isDeclaration_clauses :
    ∀ t ∈ u.clauses.tokens ImportClause.tokens, t.kind.isDeclaration = false :=
  fun t ht => kind_of_isPlain (u.isPlain_clauses t ht)

/-- The name after the word for functions is that of the first import, whatever ends the last one. -/
theorem nameAfter_clauses {t : Token} (ht : t.EndsImports) (rest : List Token) :
    nameAfter (u.clauses.tokens ImportClause.tokens ++ t :: rest) =
      spelling (u.clauses.first.lead ++ u.clauses.first.name.tokens) := by
  let c := u.clauses.first
  obtain ⟨head, hmore⟩ : ∃ head, head.EndsImport ∧ ∃ left,
      u.clauses.more.flatMap (fun part => part.1 :: part.2.tokens) ++ t :: rest = head :: left := by
    cases hparts : u.clauses.more with
    | nil => exact ⟨t, ht.toEndsImport, rest, rfl⟩
    | cons part more =>
      refine ⟨part.1, endsImport_of_isPunct (u.clauses.comma_isPunct part ?_), _, rfl⟩
      rw [hparts]
      exact List.mem_cons_self ..
  obtain ⟨hends, left, hmore⟩ := hmore
  have htake := takeNameTokens_name c.lead c.lead_isNameSeparator c.name
    (endsName_afterName c left hends) false
  obtain ⟨first, others, hhead, hkind⟩ := exists_head_import c
  have hamp : first.isPunct "&" = false := by
    rcases hkind with hkind | hkind <;> simp [isPunct, hkind]
  have hskip : skipIgnorable (u.clauses.tokens ImportClause.tokens ++ t :: rest) =
      c.lead ++ c.name.tokens ++ (c.afterName ++ head :: left) := by
    rw [Parts.tokens, List.append_assoc, hmore, ImportClause.tokens_eq, List.append_assoc,
      List.append_assoc, skipIgnorable_import]
  rw [nameAfter, hskip]
  rw [hhead, List.cons_append] at htake ⊢
  simp only [hamp, Bool.false_eq_true, if_false, takeName, htake, c]

/-- The tokens of an import statement without its semicolon. -/
theorem isUnended : Unended u.unended u.importHead.function? where
  selfContained := selfContained_of_forall <| List.forall_mem_append.mpr
    ⟨u.importHead.kind_ne_namespace, fun t ht => kind_ne_namespace_of_isPlain (u.isPlain_clauses t ht)⟩
  function := fun t ht => u.importHead.kind_of_mem_function? ht
  state := by
    intro home outer hhome previous beyond
    have hquiet : ∀ t ∈ u.clauses.tokens ImportClause.tokens,
        Traversal.Quiet (home :: outer) u.importHead.function? t := fun t ht =>
      Traversal.quiet_of_isPlain (u.isPlain_clauses t ht) (List.cons_ne_nil _ _)
    obtain ⟨previous', hhead⟩ := u.importHead.run_head hhome previous
      (u.clauses.tokens ImportClause.tokens ++ beyond)
    rw [unended, Traversal.run_append, hhead, Traversal.run_quiet hquiet]
    exact ⟨_, rfl⟩
  reads := by
    intro pre rest t hsplit hconst v w hv hw vs ws
    cases hdeclares : t.kind.isDeclaration with
    | false => exact .of_not hdeclares _ _
    | true =>
      obtain ⟨middle, hhead, rfl⟩ := split_of_not hsplit hdeclares u.isDeclaration_clauses
      obtain ⟨-, rfl, rfl⟩ | ⟨part, hpart, -, rfl, rfl⟩ := u.importHead.head_split hhead hdeclares
      · have hread (x : Token) (hx : x.EndsImports) (xs : List Token) :=
          readUse_afterKeyword (-1) u hx.toEndsImport hx.not_comma xs
        rw [u.importHead.keyword_kind]
        change SameImports (readUse (-1) (u.afterKeyword ++ v :: vs)) (readUse (-1) (u.afterKeyword ++ w :: ws))
        rw [hread v hv, hread w hw]
        exact ⟨rfl, rfl⟩
      · have hkind := (u.importHead.word_kind part hpart).resolve_right hconst
        rw [hkind, List.nil_append]
        exact (u.nameAfter_clauses hw ws).trans (u.nameAfter_clauses hv vs).symm
  constants := by
    intro home outer hhome first hnumbered pre rest t hsplit hkind previous beyond scope hpassed hlevel front
    have hdeclares : t.kind.isDeclaration = true := by rw [hkind]; rfl
    obtain ⟨middle, hhead, rfl⟩ := split_of_not hsplit hdeclares u.isDeclaration_clauses
    obtain ⟨-, rfl, -⟩ | ⟨part, hpart, rfl, rfl, -⟩ := u.importHead.head_split hhead hdeclares
    · rw [u.importHead.keyword_kind] at hkind
      cases hkind
    · exact u.importHead.followsUse_word front

end ImportItem

/-! ## Imports in braces -/

namespace GroupImport

variable (g : GroupImport)

/-- The tokens of a group import without its semicolon, up to the braces and from them on. -/
theorem unended_eq : g.unended = g.head ++ (g.shared ++ g.opening :: (g.body ++ g.afterBraces)) := by
  simp [unended, afterBraces]

/-- After the braces there is no keyword. -/
theorem isDeclaration_afterBraces : ∀ t ∈ g.afterBraces, t.kind.isDeclaration = false := by
  refine List.forall_mem_cons.mpr ⟨?_, fun t ht => kind_of_isPlain (isPlain_of_ignorable
    (g.trailing.ignorable t ht))⟩
  rw [kind_of_isPunct g.closing_isPunct]
  rfl

/-- A keyword after the beginning stands in the braces. -/
theorem split_tail {pre rest : List Token} {t : Token}
    (h : g.shared ++ g.opening :: (g.body ++ g.afterBraces) = pre ++ t :: rest)
    (ht : t.kind.isDeclaration = true) : t ∈ g.body ∧ g.closing ∈ rest := by
  have hsplit : (g.shared ++ g.opening :: g.body) ++ g.afterBraces = pre ++ t :: rest := by
    rw [← h]
    simp
  obtain ⟨middle, hfirst, rfl⟩ := split_of_not hsplit ht g.isDeclaration_afterBraces
  have hmem : t ∈ g.shared ++ g.opening :: g.body := by
    rw [hfirst]
    exact List.mem_append_right _ (List.mem_cons_self ..)
  refine ⟨?_, List.mem_append_right _ (List.mem_cons_self ..)⟩
  rcases List.mem_append.mp hmem with hmem | hmem
  · rw [kind_of_isPlain (g.isPlain_shared t hmem)] at ht
    cases ht
  · rcases List.mem_cons.mp hmem with rfl | hmem
    · rw [kind_of_isPunct g.opening_isPunct] at ht
      cases ht
    · exact hmem

/-- A keyword of a group import is one of its beginning, or stands in the braces. -/
theorem split {pre rest : List Token} {t : Token} (h : g.unended = pre ++ t :: rest)
    (ht : t.kind.isDeclaration = true) :
    (∃ middle, g.head = pre ++ t :: middle ∧
      rest = middle ++ (g.shared ++ g.opening :: (g.body ++ g.afterBraces))) ∨
    ∃ inner, pre = g.head ++ inner ∧ t ∈ g.body ∧ g.closing ∈ rest := by
  rw [unended_eq] at h
  obtain hhead | ⟨inner, rfl, htail⟩ := split_append h
  · exact .inl hhead
  · exact .inr ⟨inner, rfl, g.split_tail htail ht⟩

/-- Constants in the braces are none of the file. -/
theorem not_isFileLevel {home : Scope} {outer : List Scope} (hhome : Home home outer) {first : Int}
    (hnumbered : Numbered first g.unended) {t : Token} (ht : t ∈ g.body)
    (hdeclares : t.kind.isDeclaration = true) {previous : Option TokenKind} {beyond : List Token}
    {scope : Option Scope}
    (hpassed : .passed t scope ∈ (Traversal.run beyond ⟨home :: outer, none, previous⟩ g.unended).2) :
    isFileLevel scope = false := by
  have hbefore : t ∉ g.head ++ g.shared := by
    have hsplit : g.unended = (g.head ++ g.shared) ++ (g.opening :: (g.body ++ g.afterBraces)) := by
      rw [unended_eq, List.append_assoc]
    rw [hsplit] at hnumbered
    exact fun hmem => hnumbered.not_mem hmem (List.mem_cons_of_mem _ (List.mem_append_left _ ht))
  have hbehind : t ∉ g.afterBraces := by
    intro hmem
    rw [g.isDeclaration_afterBraces t hmem] at hdeclares
    cases hdeclares
  rw [g.run_unended hhome] at hpassed
  simp only [unendedEvents, List.mem_append, List.mem_map, List.mem_cons, Event.passed.injEq,
    reduceCtorEq, false_or] at hpassed
  rcases hpassed with ⟨u, hu, rfl, -⟩ | ⟨-, rfl⟩ | ⟨u, -, -, rfl⟩ | ⟨u, hu, rfl, -⟩
  · exact absurd (List.mem_append.mpr hu) hbefore
  · exact isFileLevel_scope
  · exact isFileLevel_scope
  · exact absurd hu hbehind

/-- The tokens of a group import without its semicolon. -/
theorem isUnended : Unended g.unended none where
  selfContained := by
    rw [unended_eq]
    have hbody : ∀ t ∈ g.body, t.kind ≠ .namespaceKeyword := by
      intro t ht hkind
      rcases g.body_isClauses t ht with hplain | hword | hword
      · exact kind_ne_namespace_of_isPlain hplain hkind
      · rw [hkind] at hword
        cases hword
      · rw [hkind] at hword
        cases hword
    have hafter : ∀ t ∈ g.afterBraces, t.kind ≠ .namespaceKeyword := by
      intro t ht hkind
      have := g.isDeclaration_afterBraces t ht
      rw [hkind] at this
      cases this
    refine selfContained_of_forall ?_
    simp only [List.forall_mem_append, List.forall_mem_cons]
    exact ⟨g.kind_ne_namespace, fun t ht => kind_ne_namespace_of_isPlain (g.isPlain_shared t ht),
      by simp [kind_of_isPunct g.opening_isPunct], hbody, hafter⟩
  function := nofun
  state := by
    intro home outer hhome previous beyond
    rw [g.run_unended hhome]
    exact ⟨_, rfl⟩
  reads := by
    intro pre rest t hsplit hconst u v hu hv us vs
    cases hdeclares : t.kind.isDeclaration with
    | false => exact .of_not hdeclares _ _
    | true =>
      obtain ⟨middle, hhead, rfl⟩ | ⟨inner, -, hbody, hclosing⟩ := g.split hsplit hdeclares
      · obtain ⟨-, rfl, rfl⟩ | ⟨part, hpart, -, rfl, rfl⟩ := g.head_split hhead hdeclares
        · rw [g.keyword_kind]
          simp only [List.append_assoc, List.cons_append]
          change SameImports _ _
          rw [g.readUse_shared, g.readUse_shared]
          exact ⟨rfl, rfl⟩
        · rw [(g.word_kind part hpart).resolve_right hconst]
          simp only [List.nil_append, List.append_assoc, List.cons_append]
          exact (g.nameAfter_shared _).trans (g.nameAfter_shared _).symm
      · have hkind : t.kind = .functionKeyword := by
          rcases g.body_isClauses t hbody with hplain | hfunction | hconstant
          · rw [kind_of_isPlain hplain] at hdeclares
            cases hdeclares
          · exact hfunction
          · exact absurd hconstant hconst
        have hbounded : Bounded rest :=
          ⟨g.closing, hclosing, bounds_of_isPunct g.closing_isPunct (.inr (.inr rfl))⟩
        rw [hkind]
        exact (nameAfter_bounded hbounded _).trans (nameAfter_bounded hbounded _).symm
  constants := by
    intro home outer hhome first hnumbered pre rest t hsplit hkind previous beyond scope hpassed hlevel front
    have hdeclares : t.kind.isDeclaration = true := by rw [hkind]; rfl
    obtain ⟨middle, hhead, -⟩ | ⟨inner, -, hbody, -⟩ := g.split hsplit hdeclares
    · obtain ⟨-, rfl, -⟩ | ⟨part, hpart, rfl, rfl, -⟩ := g.head_split hhead hdeclares
      · rw [g.keyword_kind] at hkind
        cases hkind
      · exact g.followsUse_word front
    · rw [g.not_isFileLevel hhome hnumbered hbody hdeclares hpassed] at hlevel
      cases hlevel

end GroupImport

end Reflection
