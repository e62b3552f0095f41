import Reflection.Proofs.Declaration.Unended

/-!
# Closing tags after imports

A file may leave the program at a closing tag, and come back at the next open tag. Where this happens in
the place of the semicolon of an import, the import ends as it does with the semicolon. A word for functions
goes on waiting for a block, so that no brace may open before a semicolon or another declaration.

## Main definitions

* `HtmlBreak`: a closing tag, text outside of the program, and an open tag.
* `ScannedAlike`: two streams that give indexes with the same elements.

## Main statements

* `HtmlBreak.takeExpression_tokens`, `HtmlBreak.run_tokens`: what is made of a break.
* `Unended.seamless_splice`: with either end, a stream around an import is read alike.
* `Unended.scannedAlike`: a closing tag ends an import.
-/
namespace Reflection

open Reflection.Text Token

/-- A closing tag, text outside of the program, and an open tag. -/
structure HtmlBreak where
  closing : Token
  closing_kind : closing.kind = .closeTag
  html : List Token
  html_kind : ∀ t ∈ html, t.kind = .inlineHtml
  opening : Token
  opening_kind : opening.kind = .openTag
  opening_text : lower opening.text ∉ structureModifiers

namespace HtmlBreak

variable (b : HtmlBreak)

/-- The tokens of the break. -/
def tokens : List Token := b.closing :: (b.html ++ [b.opening])

theorem kind_of_mem {t : Token} (ht : t ∈ b.tokens) :
    t.kind = .closeTag ∨ t.kind = .inlineHtml ∨ t.kind = .openTag := by
  simp only [tokens, List.mem_cons, List.mem_append, List.not_mem_nil, or_false] at ht
  rcases ht with rfl | ht | rfl
  · exact .inl b.closing_kind
  · exact .inr (.inl (b.html_kind t ht))
  · exact .inr (.inr b.opening_kind)

theorem isPlain {t : Token} (ht : t ∈ b.tokens) : t.isPlain = true := by
  rcases b.kind_of_mem ht with hkind | hkind | hkind <;>
    simp [Token.isPlain, hkind, TokenKind.isDeclaration, isPunct]

/-- The closing tag ends an import. -/
theorem endsImports_closing : b.closing.EndsImports where
  isIgnorable := by simp [isIgnorable, b.closing_kind, TokenKind.isIgnorable]
  extendsName := by simp [Token.extendsName, isNameStart, b.closing_kind]
  not_namespace := by simp [b.closing_kind]
  not_as := by simp [b.closing_kind]
  not_comma := by simp [isPunct, b.closing_kind]

theorem isIgnorable_opening : b.opening.isIgnorable = false := by
  simp [isIgnorable, b.opening_kind, TokenKind.isIgnorable]

theorem reverse_append (before : List Token) :
    (before ++ b.tokens).reverse = b.opening :: (before ++ b.closing :: b.html).reverse := by
  simp [tokens]

/-- No documentation before the break is that of what follows. -/
theorem docCommentBefore_eq (before : List Token) {skipped : List String}
    (hskipped : skipped ∈ [[], structureModifiers]) :
    docCommentBefore skipped (before ++ b.tokens).reverse = "" := by
  have htext : lower b.opening.text ∉ skipped := by
    rcases List.mem_pair.mp hskipped with rfl | rfl
    · exact List.not_mem_nil
    · exact b.opening_text
  rw [b.reverse_append, docCommentBefore, if_neg (by simp [b.opening_kind]),
    if_neg (by simp [htext, b.isIgnorable_opening])]

theorem followsUse_eq (before : List Token) : followsUse (before ++ b.tokens) = false := by
  rw [followsUse, b.reverse_append, previousSignificant?, List.find?_cons, b.isIgnorable_opening]
  simp [b.opening_kind]

/-- An expression goes on over the break. -/
theorem takeExpression_tokens (rest : List Token) :
    takeExpression [] (b.tokens ++ rest) =
      (b.tokens ++ (takeExpression [] rest).1, (takeExpression [] rest).2) := by
  have hgo : ∀ ts : List Token, (∀ t ∈ ts, t ∈ b.tokens) →
      takeExpression [] (ts ++ rest) = (ts ++ (takeExpression [] rest).1, (takeExpression [] rest).2) := by
    intro ts
    induction ts with
    | nil => exact fun _ => rfl
    | cons t ts ih =>
      intro h
      obtain ⟨ht, hts⟩ := List.forall_mem_cons.mp h
      have hstep : t.endsExpression [] = false ∧ bracketsAfter [] t = [] ∧ t.isIgnorable = false := by
        rcases b.kind_of_mem ht with hkind | hkind | hkind <;>
          simp [endsExpression, isPunct, bracketsAfter, isIgnorable, hkind, TokenKind.isIgnorable]
      rw [List.cons_append, takeExpression, hstep.1, hstep.2.1, hstep.2.2, ih hts]
      rfl
  exact hgo b.tokens fun _ ht => ht

/-- The break changes nothing where a scope is open. -/
theorem run_tokens (home : Scope) (outer : List Scope) (pending : Option Token)
    (previous : Option TokenKind) (beyond : List Token) :
    Traversal.run beyond ⟨home :: outer, pending, previous⟩ b.tokens =
      (⟨home :: outer, pending, some .openTag⟩, b.tokens.map (.passed · (some home))) := by
  have hquiet : ∀ t ∈ b.tokens, Traversal.Quiet (home :: outer) pending t := fun t ht =>
    Traversal.quiet_of_isPlain (b.isPlain ht) (List.cons_ne_nil _ _)
  have hlast : (significant b.tokens).getLast? = some b.opening := by
    rw [getLast?_significant, ← List.nil_append b.tokens, b.reverse_append, previousSignificant?,
      List.find?_cons, b.isIgnorable_opening]
    rfl
  rw [Traversal.run_quiet hquiet, hlast, Option.map_some, b.opening_kind]
  rfl

end HtmlBreak

/-- Two streams of which both can be scanned or neither, with the same elements in their indexes. -/
def ScannedAlike (options : ScanOptions) (tokens tokens' : List Token) : Prop :=
  ((∃ index, (scan options tokens).outcome = .ok index) ↔
    ∃ index', (scan options tokens').outcome = .ok index') ∧
  ∀ index index', (scan options tokens).outcome = .ok index →
    (scan options tokens').outcome = .ok index' → ∀ kind, index'.elements kind = index.elements kind

/-- The names of such streams are the same. -/
theorem ScannedAlike.names {options : ScanOptions} {tokens tokens' : List Token}
    (h : ScannedAlike options tokens tokens') {index index' : DeclarationIndex}
    (hindex : (scan options tokens).outcome = .ok index)
    (hindex' : (scan options tokens').outcome = .ok index') (kind : DeclarationKind) :
    index'.names kind = index.names kind := by
  have hnames (index : DeclarationIndex) : index.names kind = (index.elements kind).map Prod.fst := by
    rw [DeclarationIndex.names, DeclarationIndex.elements, List.map_map]
    rfl
  rw [hnames, hnames, h.2 index index' hindex hindex']

/-! ## Imports -/

namespace Unended

variable {front ts back back' : List Token} {function? : Option Token} {semicolon : Token} {b : HtmlBreak}

/-- The streams with a semicolon after an import and with a break. -/
def splice (hnumbered : Numbered 0 (front ++ ts ++ ([semicolon] ++ back)))
    (hnumbered' : Numbered 0 (front ++ ts ++ (b.tokens ++ back')))
    (hback : back'.map unplaced = back.map unplaced) : Splice where
  front := front ++ ts
  middle := [semicolon]
  middle' := b.tokens
  back := back
  back' := back'
  numbered := hnumbered
  numbered' := hnumbered'
  back_unplaced := hback

variable (h : Unended ts function?) (hfront : BetweenStatements front)
  (hsemicolon : semicolon.isPunct ";" = true)
  (hnumbered : Numbered 0 (front ++ ts ++ ([semicolon] ++ back)))
  (hnumbered' : Numbered 0 (front ++ ts ++ (b.tokens ++ back')))
  (hback : back'.map unplaced = back.map unplaced)

include h hfront hsemicolon

theorem seamless_splice : (splice hnumbered hnumbered' hback).Seamless where
  selfContained := hfront.selfContained.append h.selfContained
  reads := by
    intro pre rest t hsplit hconst
    obtain ⟨middle, hbefore, rfl⟩ | ⟨middle, -, hts⟩ := split_append hsplit
    · rw [List.append_assoc, List.append_assoc]
      exact hfront.readsAlike hbefore hconst _ _
    · exact h.reads hts hconst (endsImports_of_semicolon hsemicolon) b.endsImports_closing _ _
  constants := by
    intro pre rest t scope hsplit hkind huse hpassed hlevel
    have htokens : Numbered 0 (front ++ ts) := ((numbered_append 0 _ _).mp hnumbered).1
    obtain ⟨home, outer, previous, hstate, hhome, -⟩ := hfront.exists_state
    have hpassage : (splice hnumbered hnumbered' hback).passage = (Traversal.run [] {} front).2 ++
        (Traversal.run [] ⟨home :: outer, none, previous⟩ ts).2 := by
      change (Traversal.run [] {} (front ++ ts)).2 = _
      rw [Traversal.run_append, Traversal.run_congr {} hfront.selfContained [] (ts ++ []), hstate]
    rw [hpassage] at hpassed
    obtain ⟨middle, hbefore, rfl⟩ | ⟨middle, rfl, hts⟩ := split_append hsplit
    · have hmem : t ∈ front := by
        rw [hbefore]
        exact List.mem_append_right _ (List.mem_cons_self ..)
      have hearly := (List.mem_append.mp hpassed).resolve_right fun hlate =>
        htokens.not_mem hmem (Traversal.mem_of_passed_run hlate)
      rw [List.append_assoc, List.append_assoc]
      exact hfront.constantsAlike hbefore hkind huse hearly hlevel _ _
    · have hmem : t ∈ ts := by
        rw [hts]
        exact List.mem_append_right _ (List.mem_cons_self ..)
      have hlate := (List.mem_append.mp hpassed).resolve_left fun hearly =>
        htokens.not_mem (Traversal.mem_of_passed_run hearly) hmem
      rw [h.constants hhome ((numbered_append 0 front ts).mp htokens).2 hts hkind hlate hlevel front] at huse
      cases huse
  documentation := by
    intro skipped hskipped
    have hfirst : docCommentBefore skipped (front ++ ts ++ [semicolon]).reverse = "" := by
      refine docCommentBefore_boundary (boundary_of_isPunct hsemicolon (by simp)) ?_
      rcases List.mem_pair.mp hskipped with rfl | rfl
      · exact List.nil_subset _
      · exact List.Subset.refl _
    exact (b.docCommentBefore_eq (front ++ ts) hskipped).trans hfirst.symm
  imports := by
    have hfirst : followsUse (front ++ ts ++ [semicolon]) = false := by
      rw [followsUse, List.reverse_append, List.reverse_singleton, List.singleton_append,
        previousSignificant?, List.find?_cons, isIgnorable_of_isPunct hsemicolon]
      simp [kind_of_isPunct hsemicolon]
    exact (b.followsUse_eq (front ++ ts)).trans hfirst.symm

omit hfront in
/-- The state after the semicolon: the function waits no more. -/
theorem run_semicolon {home : Scope} {outer : List Scope} (previous : Option TokenKind)
    (beyond : List Token) :
    Traversal.run beyond ⟨home :: outer, function?, previous⟩ [semicolon] =
      (⟨home :: outer, none, some .punctuation⟩, [.passed semicolon (some home)]) := by
  have hprocess (rest : List Token) : Traversal.process ⟨home :: outer, function?, previous⟩ semicolon rest =
      (⟨home :: outer, none, previous⟩, []) := by
    rw [Traversal.process_semicolon hsemicolon, Traversal.terminate]
    have hkind := h.function
    cases hfunction : function? with
    | none => rfl
    | some t =>
      rw [hfunction] at hkind
      simp [hkind t rfl]
  rw [Traversal.run_cons, Traversal.step_eq, hprocess]
  simp [Traversal.note, Traversal.current?, isIgnorable_of_isPunct hsemicolon, kind_of_isPunct hsemicolon]

/-- Both ends leave the same scopes open. -/
theorem joins_splice {home : Scope} {outer : List Scope} {previous : Option TokenKind}
    (hstate : (Traversal.run [] {} front).1 = ⟨home :: outer, none, previous⟩) (hhome : Home home outer)
    (hbrace : function?.isSome = true →
      (Traversal.run [] {} (front ++ (ts ++ [semicolon]))).1.NoBraceFirst [] back) :
    (splice hnumbered hnumbered' hback).Joins function?.isSome [.passed semicolon (some home)]
      (b.tokens.map (.passed · (some home))) := by
  obtain ⟨previous', hts⟩ := h.state hhome previous []
  have hentry : (splice hnumbered hnumbered' hback).entry = ⟨home :: outer, function?, previous'⟩ := by
    change (Traversal.run [] {} (front ++ ts)).1 = _
    rw [Traversal.run_append, Traversal.run_congr {} hfront.selfContained [] (ts ++ []), hstate, hts]
  have hend : (Traversal.run [] {} (front ++ (ts ++ [semicolon]))).1 =
      ⟨home :: outer, none, some .punctuation⟩ := by
    have hafter : (Traversal.run ([semicolon] ++ []) ⟨home :: outer, none, previous⟩ ts).1 =
        ⟨home :: outer, function?, previous'⟩ := by
      rw [Traversal.run_congr _ h.selfContained [] ([semicolon] ++ []), hts]
    rw [Traversal.run_append, Traversal.run_congr {} hfront.selfContained [] (ts ++ [semicolon] ++ []),
      hstate, Traversal.run_append, hafter, h.run_semicolon hsemicolon]
  have hself := (splice hnumbered hnumbered' hback).entry_states
  rw [hentry] at hself
  rw [hend] at hbrace
  refine ⟨⟨⟨home :: outer, none, some .punctuation⟩, ⟨home :: outer, function?, some .openTag⟩, ?_, ?_,
    ⟨hself.scopes, ?_, by simp⟩, hbrace⟩⟩
  · rw [hentry]
    exact h.run_semicolon hsemicolon previous' back
  · rw [hentry]
    exact b.run_tokens home outer function? previous' back'
  · have hkind := h.function
    cases hfunction : function? with
    | none => exact .inl .none
    | some t =>
      rw [hfunction] at hkind
      exact .inr ⟨rfl, rfl, by rw [Option.map_some, hkind t rfl]⟩

omit h hfront in
/-- Neither end declares anything. -/
theorem inert_splice (home : Scope) :
    (splice hnumbered hnumbered' hback).Inert [.passed semicolon (some home)]
      (b.tokens.map (.passed · (some home))) := by
  have hpasses (tokens : List Token) :
      statementPasses tokens (b.tokens.map (.passed · (some home))) = [] := by
    refine List.eq_nil_iff_forall_not_mem.mpr fun pass hpass => ?_
    obtain ⟨u, scope⟩ := pass
    obtain ⟨hpassed, hkeyword, -⟩ := mem_statementPasses hpass
    obtain ⟨t, ht, heq⟩ := List.mem_map.mp hpassed
    cases heq
    rw [isStatementKeyword_of_isPlain (b.isPlain ht)] at hkeyword
    cases hkeyword
  refine ⟨rfl, ?_, ?_, ?_⟩
  · rw [statementPasses_passed, isStatementKeyword_of_ne (by simp [kind_of_isPunct hsemicolon])
      (by simp [kind_of_isPunct hsemicolon])]
    rfl
  · rw [Splice.closedScopes_passed]
    exact fun s hs => absurd hs List.not_mem_nil
  · rw [hpasses]
    exact fun pass hpass => absurd hpass List.not_mem_nil

include hnumbered hnumbered' hback in
/-- A closing tag ends an import as a semicolon does, if a function that may wait after it waits no more
when the next brace opens. -/
theorem scannedAlike (options : ScanOptions)
    (hbrace : function?.isSome = true →
      (Traversal.run [] {} (front ++ (ts ++ [semicolon]))).1.NoBraceFirst [] back) :
    ScannedAlike options (front ++ ts ++ ([semicolon] ++ back)) (front ++ ts ++ (b.tokens ++ back')) := by
  obtain ⟨home, outer, previous, hstate, hhome, -⟩ := hfront.exists_state
  have hstrays : (splice hnumbered hnumbered' hback).strays (b.tokens.map (.passed · (some home))) = [] := by
    rw [Splice.strays, Splice.closedScopes_passed]
    rfl
  obtain ⟨hcompletes, hheld⟩ := Splice.scan_agree options (P := fun _ => true)
    (h.seamless_splice hfront hsemicolon hnumbered hnumbered' hback)
    (h.joins_splice hfront hsemicolon hnumbered hnumbered' hback hstate hhome hbrace)
    (inert_splice hsemicolon hnumbered hnumbered' hback home) (fun _ => rfl) (by rw [hstrays]; simp)
  exact ⟨hcompletes, fun index index' hindex hindex' kind =>
    DeclarationIndex.elements_of_held (hheld index index' hindex hindex') fun _ => rfl⟩

end Unended

end Reflection
