import Reflection.Proofs.Declaration.Pairing

/-!
# Streams that differ in one stretch

Two streams begin with the same tokens and end with the same tokens, and one stretch between them differs.
Where the stretches leave a traversal in the same state, and no keyword before them is read into them, all
that the streams declare outside of the stretches is the same.

## Main definitions

* `Splice`: two streams that differ in one stretch.
* `Splice.Seamless`: nothing outside of the stretches is read differently because of them.

## Main statements

* `Splice.sameReading`: keywords outside of the stretches are read alike.
* `Splice.exists_around`: the traversals of the two streams.
* `Splice.scan_agree`: the scans of the two streams.
-/
namespace Reflection

open Token

/-! ## Reading after a keyword -/

/-- The name that tokens begin with, an ampersand being passed over. -/
def nameAfter (after : List Token) : String :=
  match skipIgnorable after with
  | t :: rest => (takeName (if t.isPunct "&" then skipIgnorable rest else t :: rest)).1
  | [] => ""

theorem declaredName_eq (tokens : List Token) (keyword : Token) :
    declaredName tokens keyword = nameAfter (tokensAfter tokens keyword) := rfl

theorem nameAfter_unplaced (after : List Token) : nameAfter (after.map unplaced) = nameAfter after := by
  rw [nameAfter, nameAfter, skipIgnorable_unplaced]
  cases skipIgnorable after with
  | nil => rfl
  | cons t rest =>
    simp only [List.map_cons, isPunct_unplaced, skipIgnorable_unplaced]
    split
    · rw [takeName_unplaced]
    · rw [← List.map_cons, takeName_unplaced]

/-- What a keyword of a kind declares is the same before both lists of tokens. -/
def ReadsAlike (kind : TokenKind) (after after' : List Token) : Prop :=
  match kind with
  | .useKeyword => SameImports (readUse (-1) after) (readUse (-1) after')
  | .constKeyword => SameConstants (readConst (-1) (-1) after) (readConst (-1) (-1) after')
  | .namespaceKeyword | .functionKeyword | .interfaceKeyword | .traitKeyword | .classKeyword =>
    nameAfter after' = nameAfter after
  | _ => True

namespace ReadsAlike

variable {kind : TokenKind} {after after' : List Token}

/-- Nothing is read of the places of tokens. -/
theorem of_unplaced (h : after'.map unplaced = after.map unplaced) (kind : TokenKind) :
    ReadsAlike kind after after' := by
  have himports : SameImports (readUse (-1) after) (readUse (-1) after') :=
    (h ▸ readUse_unplaced (-1) (-1) after :
      SameImports _ (readUse (-1) (after'.map unplaced))).trans (readUse_unplaced (-1) (-1) after').symm
  have hconstants : SameConstants (readConst (-1) (-1) after) (readConst (-1) (-1) after') :=
    (h ▸ readConst_unplaced (-1) (-1) (-1) (-1) after :
      SameConstants _ (readConst (-1) (-1) (after'.map unplaced))).trans
        (readConst_unplaced (-1) (-1) (-1) (-1) after').symm
  have hname : nameAfter after' = nameAfter after := by
    rw [← nameAfter_unplaced after', h, nameAfter_unplaced]
  cases kind <;> first | exact himports | exact hconstants | exact hname | trivial

theorem imports (h : ReadsAlike .useKeyword after after') (line line' : Int) :
    SameImports (readUse line after) (readUse line' after') := by
  have hline (line line' : Int) (ts : List Token) : SameImports (readUse line ts) (readUse line' ts) :=
    (readUse_unplaced line (-1) ts).trans (readUse_unplaced line' (-1) ts).symm
  exact ((hline line (-1) after).trans h).trans (hline (-1) line' after')

theorem constants (h : ReadsAlike .constKeyword after after') (line line' lastLine lastLine' : Int) :
    SameConstants (readConst line lastLine after) (readConst line' lastLine' after') := by
  have hline (line line' lastLine lastLine' : Int) (ts : List Token) :
      SameConstants (readConst line lastLine ts) (readConst line' lastLine' ts) :=
    (readConst_unplaced line (-1) lastLine (-1) ts).trans
      (readConst_unplaced line' (-1) lastLine' (-1) ts).symm
  exact ((hline line (-1) lastLine (-1) after).trans h).trans (hline (-1) line' (-1) lastLine' after')

theorem symm (h : ReadsAlike kind after after') : ReadsAlike kind after' after := by
  cases kind <;> first | exact SameImports.symm h | exact SameConstants.symm h | exact Eq.symm h | trivial

theorem trans {after'' : List Token} (h : ReadsAlike kind after after')
    (h' : ReadsAlike kind after' after'') : ReadsAlike kind after after'' := by
  cases kind <;>
    first | exact SameImports.trans h h' | exact SameConstants.trans h h' | exact Eq.trans h' h | trivial

theorem name (h : ReadsAlike kind after after') (hkind : (DeclarationKind.ofOwner? kind).isSome) :
    nameAfter after' = nameAfter after := by
  cases kind <;> first | exact h | cases hkind

end ReadsAlike

/-! ## Reading before a place -/

/-- The last significant token of a stretch is the keyword `use`. -/
def followsUse (before : List Token) : Bool :=
  (previousSignificant? before.reverse).any (·.kind == .useKeyword)

/-- What documents a place depends on what stands before it through what documents that. -/
theorem docCommentBefore_congr (skipped : List String) {before before' ts ts' : List Token}
    (hbefore : docCommentBefore skipped before'.reverse = docCommentBefore skipped before.reverse)
    (hts : ts'.map unplaced = ts.map unplaced) :
    docCommentBefore skipped (before' ++ ts').reverse =
      docCommentBefore skipped (before ++ ts).reverse := by
  rw [List.reverse_append, List.reverse_append]
  refine append_congr_of_unplaced (fun t t' rest rest' ht ih => ?_)
    (by rw [List.map_reverse, List.map_reverse, hts]) hbefore
  simp only [docCommentBefore, kind_of_unplaced ht, text_of_unplaced ht, isIgnorable_of_unplaced ht, ih]

theorem followsUse_congr {before before' ts ts' : List Token}
    (hbefore : followsUse before' = followsUse before) (hts : ts'.map unplaced = ts.map unplaced) :
    followsUse (before' ++ ts') = followsUse (before ++ ts) := by
  rw [followsUse, followsUse, List.reverse_append, List.reverse_append]
  refine append_congr_of_unplaced
    (f := fun ts => (previousSignificant? ts).any fun t : Token => t.kind == TokenKind.useKeyword)
    (fun t t' rest rest' ht ih => ?_) (by rw [List.map_reverse, List.map_reverse, hts]) hbefore
  unfold previousSignificant? at ih ⊢
  rw [List.find?_cons, List.find?_cons, isIgnorable_of_unplaced ht]
  cases t.isIgnorable with
  | true => exact ih
  | false => simp only [Bool.not_false, Option.any_some, kind_of_unplaced ht]

/-- What is no documentation behind words that are passed over is none without them. -/
theorem docCommentBefore_nil {skipped : List String} {ts : List Token}
    (h : docCommentBefore skipped ts = "") : docCommentBefore [] ts = "" := by
  induction ts with
  | nil => rfl
  | cons t before ih =>
    rw [docCommentBefore] at h ⊢
    by_cases hdoc : t.kind = .docComment
    · rw [if_pos hdoc] at h ⊢
      obtain ⟨hbefore, htext⟩ := String.append_eq_empty_iff.mp h
      rw [ih hbefore, htext]
      rfl
    · rw [if_neg hdoc] at h ⊢
      by_cases hignorable : t.isIgnorable = true
      · rw [if_pos (.inr hignorable)] at h ⊢
        exact ih h
      · exact if_neg (by simp [hignorable])

/-! ## Tokens that change nothing -/

namespace Traversal

/-- A token at which a traversal keeps its scopes and the declaration that waits. -/
def Quiet (scopes : List Scope) (pending : Option Token) (t : Token) : Prop :=
  ∀ previous rest, process ⟨scopes, pending, previous⟩ t rest = (⟨scopes, pending, previous⟩, [])

variable {scopes : List Scope} {pending : Option Token} {t : Token}

theorem quiet_of_isPlain (h : t.isPlain = true) (hscopes : scopes ≠ []) : Quiet scopes pending t :=
  fun _ _ => process_plain h hscopes

theorem quiet_of_statement (h : t.kind = .useKeyword ∨ t.kind = .constKeyword) :
    Quiet scopes pending t :=
  fun _ _ => process_statement h

/-- The keyword `function` declares nothing in an anonymous block or in a function. -/
theorem quiet_of_function (h : t.kind = .functionKeyword)
    (howner : (scopes.head?.bind Scope.ownerKind?).any ownsFunctions = false) :
    Quiet scopes pending t := by
  intro previous rest
  simp [process, h, current?, howner]

/-- A semicolon ends nothing where nothing waits. -/
theorem quiet_of_semicolon (h : t.isPunct ";" = true) : Quiet scopes none t := by
  intro previous rest
  rw [process_semicolon h]
  rfl

/-- Tokens that change nothing are passed in the scope that is open. -/
theorem run_quiet {ts : List Token} (h : ∀ t ∈ ts, Quiet scopes pending t) (previous : Option TokenKind)
    (beyond : List Token) : run beyond ⟨scopes, pending, previous⟩ ts =
      (⟨scopes, pending, ((significant ts).getLast?.map Token.kind).or previous⟩,
        ts.map (.passed · scopes.head?)) := by
  induction ts generalizing previous with
  | nil => rfl
  | cons t rest ih =>
    obtain ⟨ht, hrest⟩ := List.forall_mem_cons.mp h
    rw [run_cons, step_eq, ht]
    cases hignorable : t.isIgnorable with
    | true =>
      have hsame : significant (t :: rest) = significant rest :=
        List.filter_cons_of_neg (by simp [hignorable])
      rw [note_of_ignorable hignorable, ih hrest, hsame]
      rfl
    | false =>
      have hnote : note ⟨scopes, pending, previous⟩ t = ⟨scopes, pending, some t.kind⟩ := by
        simp [note, hignorable]
      rw [hnote, ih hrest, significant_cons hignorable, List.getLast?_cons]
      cases (significant rest).getLast? <;> rfl

end Traversal

/-! ## Declarations of a stream -/

/-- The namespaces of a stream. -/
def spacesOf (tokens : List Token) : NamespaceScopes :=
  namespaceScopes tokens (closedScopes (Traversal.events tokens))

/-- The functions that some scopes of a stream belong to. -/
def functionListings (tokens : List Token) (closed : List Scope) : List Listing :=
  scopedListings tokens closed (spacesOf tokens) .functionKind

/-- The structures of a stream. -/
def structureListings (tokens : List Token) : List Listing :=
  DeclarationKind.structures.flatMap
    (scopedListings tokens (closedScopes (Traversal.events tokens)) (spacesOf tokens))

theorem functionListings_append (tokens : List Token) (xs ys : List Scope) :
    functionListings tokens (xs ++ ys) = functionListings tokens xs ++ functionListings tokens ys := by
  rw [functionListings, scopedListings, ownedScopes_append, List.filterMap_append]
  rfl

/-- The namespaces of a stream are declared before its statements. -/
theorem fileListings_eq (tokens : List Token) : fileListings tokens =
    namespaceListings tokens (closedScopes (Traversal.events tokens)) ++
      (statements tokens (Traversal.events tokens)).flatMap
        (statementListings tokens (spacesOf tokens)) := rfl

/-- The functions of a stream are declared between the statements and the structures. -/
theorem streamListings_eq (tokens : List Token) : streamListings tokens =
    fileListings tokens ++ (functionListings tokens (closedScopes (Traversal.events tokens)) ++
      structureListings tokens) := rfl

/-! ## Streams -/

/-- Two numbered streams with the same tokens before and after one stretch. The lines and positions of
what follows the stretch may differ. -/
structure Splice where
  front : List Token
  middle : List Token
  middle' : List Token
  back : List Token
  back' : List Token
  numbered : Numbered 0 (front ++ (middle ++ back))
  numbered' : Numbered 0 (front ++ (middle' ++ back'))
  back_unplaced : back'.map unplaced = back.map unplaced

namespace Splice

variable (sp : Splice)

/-- The first stream. -/
def tokens : List Token := sp.front ++ (sp.middle ++ sp.back)

/-- The second stream. -/
def tokens' : List Token := sp.front ++ (sp.middle' ++ sp.back')

/-- A token outside of the stretches, as it stands in the first stream and in the second one. -/
inductive Paired : Token → Token → Prop
  | front {pre rest : List Token} {t : Token} (h : sp.front = pre ++ t :: rest) : Paired t t
  | back {pre rest pre' rest' : List Token} {t t' : Token} (h : sp.back = pre ++ t :: rest)
      (h' : sp.back' = pre' ++ t' :: rest') (hpre : pre'.map unplaced = pre.map unplaced)
      (ht : t'.unplaced = t.unplaced) (hrest : rest'.map unplaced = rest.map unplaced) : Paired t t'

variable {sp} {pre rest pre' rest' : List Token} {t t' : Token}

/-- The first stream around a token before the stretch. -/
theorem tokens_front (h : sp.front = pre ++ t :: rest) :
    sp.tokens = pre ++ t :: (rest ++ (sp.middle ++ sp.back)) := by
  rw [tokens, h, List.append_assoc, List.cons_append]

theorem tokens'_front (h : sp.front = pre ++ t :: rest) :
    sp.tokens' = pre ++ t :: (rest ++ (sp.middle' ++ sp.back')) := by
  rw [tokens', h, List.append_assoc, List.cons_append]

/-- The first stream around a token after the stretch. -/
theorem tokens_back (h : sp.back = pre ++ t :: rest) :
    sp.tokens = (sp.front ++ sp.middle ++ pre) ++ t :: rest := by
  rw [tokens, h, List.append_assoc, List.append_assoc]

theorem tokens'_back (h' : sp.back' = pre' ++ t' :: rest') :
    sp.tokens' = (sp.front ++ sp.middle' ++ pre') ++ t' :: rest' := by
  rw [tokens', h', List.append_assoc, List.append_assoc]

theorem numbered_tokens (sp : Splice) : Numbered 0 sp.tokens := sp.numbered

theorem numbered_tokens' (sp : Splice) : Numbered 0 sp.tokens' := sp.numbered'

/-- Where a token before the stretch stands, in both streams. -/
theorem index_front (h : sp.front = pre ++ t :: rest) :
    t.index = pre.length ∧ t.index < sp.front.length := by
  have hindex := index_eq_length (tokens_front h ▸ sp.numbered_tokens)
  have hlength := congrArg List.length h
  simp only [List.length_append, List.length_cons] at hlength
  exact ⟨hindex, by omega⟩

theorem index_back (h : sp.back = pre ++ t :: rest) :
    t.index = sp.front.length + sp.middle.length + pre.length := by
  have hindex := index_eq_length (tokens_back h ▸ sp.numbered_tokens)
  simp only [List.length_append] at hindex
  omega

theorem index_back' (h' : sp.back' = pre' ++ t' :: rest') :
    t'.index = sp.front.length + sp.middle'.length + pre'.length := by
  have hindex := index_eq_length (tokens'_back h' ▸ sp.numbered_tokens')
  simp only [List.length_append] at hindex
  omega

/-- The tokens outside of the stretches, paired. -/
def pairing (sp : Splice) : Pairing where
  Paired := sp.Paired
  unplaced := by
    intro t t' h
    cases h with
    | front h => rfl
    | back h h' hpre ht hrest => exact ht
  le_iff := by
    intro t t' u u' ht hu
    have hlength {xs ys : List Token} (h : ys.map Token.unplaced = xs.map Token.unplaced) :
        ys.length = xs.length := by
      simpa using congrArg List.length h
    cases ht with
    | front ht =>
      cases hu with
      | front hu => exact Iff.rfl
      | back hu hu' hpre =>
        have h₁ := index_front ht
        have h₂ := index_back hu
        have h₃ := index_back' hu'
        omega
    | back ht ht' hpre =>
      have h₁ := index_back ht
      have h₂ := index_back' ht'
      have h₃ := hlength hpre
      cases hu with
      | front hu =>
        have h₄ := index_front hu
        omega
      | back hu hu' hpre' =>
        have h₄ := index_back hu
        have h₅ := index_back' hu'
        have h₆ := hlength hpre'
        omega

theorem paired_front (sp : Splice) : List.Forall₂ sp.pairing.Paired sp.front sp.front := by
  have hsuffix : ∀ pre ts, sp.front = pre ++ ts → List.Forall₂ sp.pairing.Paired ts ts := by
    intro pre ts
    induction ts generalizing pre with
    | nil => exact fun _ => .nil
    | cons t rest ih =>
      intro h
      exact .cons (Paired.front h) (ih (pre ++ [t]) (by rw [h, List.append_cons]))
  exact hsuffix [] sp.front rfl

theorem paired_back (sp : Splice) : List.Forall₂ sp.pairing.Paired sp.back sp.back' := by
  have hsuffix : ∀ pre pre' ts ts', sp.back = pre ++ ts → sp.back' = pre' ++ ts' →
      pre'.map unplaced = pre.map unplaced → ts'.map unplaced = ts.map unplaced →
      List.Forall₂ sp.pairing.Paired ts ts' := by
    intro pre pre' ts
    induction ts generalizing pre pre' with
    | nil =>
      intro ts' _ _ _ hts
      rw [List.map_nil, List.map_eq_nil_iff] at hts
      subst hts
      exact .nil
    | cons t rest ih =>
      intro ts' h h' hpre hts
      obtain ⟨t', rest', rfl, ht, hrest⟩ := List.map_eq_cons_iff.mp hts
      refine .cons (Paired.back h h' hpre ht hrest) (ih (pre ++ [t]) (pre' ++ [t']) rest' ?_ ?_ ?_ hrest)
      · rw [h, List.append_cons]
      · rw [h', List.append_cons]
      · rw [List.map_append, List.map_append, hpre, List.map_singleton, List.map_singleton, ht]
  exact hsuffix [] [] sp.back sp.back' rfl rfl rfl sp.back_unplaced

/-! ## Reading outside of the stretches -/

/-- What is reported of the tokens before the stretches. -/
def passage (sp : Splice) : List Event := (Traversal.run [] {} sp.front).2

/-- The stretches change nothing outside of them that depends on what stands before or after a token. A
keyword before them declares the same with either of them after it, a keyword of constants where it begins
a statement of the file. A keyword after them is documented the same, and begins a statement the same, with
either of them before it. -/
structure Seamless (sp : Splice) : Prop where
  selfContained : SelfContained sp.front
  reads : ∀ {pre rest t}, sp.front = pre ++ t :: rest → t.kind ≠ .constKeyword →
    ReadsAlike t.kind (rest ++ (sp.middle ++ sp.back)) (rest ++ (sp.middle' ++ sp.back'))
  constants : ∀ {pre rest t scope}, sp.front = pre ++ t :: rest → t.kind = .constKeyword →
    followsUse pre = false → .passed t scope ∈ sp.passage → isFileLevel scope = true →
    SameConstants (readConst (-1) (-1) (rest ++ (sp.middle ++ sp.back)))
      (readConst (-1) (-1) (rest ++ (sp.middle' ++ sp.back')))
  documentation : ∀ skipped ∈ [[], structureModifiers],
    docCommentBefore skipped (sp.front ++ sp.middle').reverse =
      docCommentBefore skipped (sp.front ++ sp.middle).reverse
  imports : followsUse (sp.front ++ sp.middle') = followsUse (sp.front ++ sp.middle)

theorem isStatementKeyword_eq {tokens : List Token} (h : tokens = pre ++ t :: rest)
    (hnumbered : Numbered 0 tokens) : isStatementKeyword tokens t =
      (t.kind == .useKeyword || (t.kind == .constKeyword && !followsUse pre)) := by
  subst h
  rw [isStatementKeyword, take_index hnumbered, followsUse]

namespace Seamless

theorem statement (h : sp.Seamless) (hpaired : sp.Paired t t') :
    isStatementKeyword sp.tokens' t' = isStatementKeyword sp.tokens t := by
  cases hpaired with
  | front hfront =>
    rw [isStatementKeyword_eq (tokens_front hfront) sp.numbered_tokens,
      isStatementKeyword_eq (tokens'_front hfront) sp.numbered_tokens']
  | back hback hback' hpre ht =>
    rw [isStatementKeyword_eq (tokens_back hback) sp.numbered_tokens,
      isStatementKeyword_eq (tokens'_back hback') sp.numbered_tokens', kind_of_unplaced ht,
      followsUse_congr h.imports hpre]

theorem after_front (h : sp.front = pre ++ t :: rest) :
    tokensAfter sp.tokens t = rest ++ (sp.middle ++ sp.back) ∧
      tokensAfter sp.tokens' t = rest ++ (sp.middle' ++ sp.back') := by
  rw [tokens_front h, tokens'_front h]
  exact ⟨tokensAfter_eq (tokens_front h ▸ sp.numbered_tokens),
    tokensAfter_eq (tokens'_front h ▸ sp.numbered_tokens')⟩

theorem after_back (h : sp.back = pre ++ t :: rest) (h' : sp.back' = pre' ++ t' :: rest') :
    tokensAfter sp.tokens t = rest ∧ tokensAfter sp.tokens' t' = rest' := by
  rw [tokens_back h, tokens'_back h']
  exact ⟨tokensAfter_eq (tokens_back h ▸ sp.numbered_tokens),
    tokensAfter_eq (tokens'_back h' ▸ sp.numbered_tokens')⟩

/-- The tokens after a paired keyword are read alike. -/
theorem readsAlike (h : sp.Seamless) (hpaired : sp.Paired t t') (hconst : t.kind ≠ .constKeyword) :
    ReadsAlike t.kind (tokensAfter sp.tokens t) (tokensAfter sp.tokens' t') := by
  cases hpaired with
  | front hfront =>
    obtain ⟨hafter, hafter'⟩ := after_front hfront
    rw [hafter, hafter']
    exact h.reads hfront hconst
  | back hback hback' hpre ht hrest =>
    obtain ⟨hafter, hafter'⟩ := after_back hback hback'
    rw [hafter, hafter']
    exact .of_unplaced hrest t.kind

/-- A token before the stretches does not stand after them. -/
theorem not_mem_back (hfront : sp.front = pre ++ t :: rest) : t ∉ sp.back := by
  have ht : t ∈ sp.front := by
    rw [hfront]
    exact List.mem_append_right _ (List.mem_cons_self ..)
  exact fun hback => Numbered.not_mem sp.numbered ht (List.mem_append_right _ hback)

/-- The constants after a paired keyword of the file are read alike. -/
theorem constantsAlike (h : sp.Seamless) {later : List Event}
    (hlater : ∀ t scope, .passed t scope ∈ later → t ∈ sp.back) {scope : Option Scope}
    (hpaired : sp.Paired t t') (hpass : (t, scope) ∈ statementPasses sp.tokens (sp.passage ++ later))
    (hkind : t.kind = .constKeyword) :
    ReadsAlike .constKeyword (tokensAfter sp.tokens t) (tokensAfter sp.tokens' t') := by
  obtain ⟨hpassed, hkeyword, hlevel⟩ := mem_statementPasses hpass
  cases hpaired with
  | front hfront =>
    obtain ⟨hafter, hafter'⟩ := after_front hfront
    have hbefore : Event.passed t scope ∈ sp.passage :=
      (List.mem_append.mp hpassed).resolve_right fun hback => not_mem_back hfront (hlater t scope hback)
    rw [isStatementKeyword_eq (tokens_front hfront) sp.numbered_tokens, hkind] at hkeyword
    rw [hafter, hafter']
    exact h.constants hfront hkind (by simpa using hkeyword) hbefore hlevel
  | back hback hback' hpre ht hrest =>
    obtain ⟨hafter, hafter'⟩ := after_back hback hback'
    rw [hafter, hafter']
    exact .of_unplaced hrest .constKeyword

/-- Paired keywords are documented alike. -/
theorem docComment (h : sp.Seamless) (hpaired : sp.Paired t t') {skipped : List String}
    (hskipped : skipped ∈ [[], structureModifiers]) :
    docCommentBefore skipped (tokensBefore sp.tokens' t') =
      docCommentBefore skipped (tokensBefore sp.tokens t) := by
  cases hpaired with
  | @front pre rest _ hfront =>
    have hbefore : tokensBefore sp.tokens t = pre.reverse := by
      rw [tokens_front hfront]
      exact tokensBefore_eq (tokens_front hfront ▸ sp.numbered_tokens)
    have hbefore' : tokensBefore sp.tokens' t = pre.reverse := by
      rw [tokens'_front hfront]
      exact tokensBefore_eq (tokens'_front hfront ▸ sp.numbered_tokens')
    rw [hbefore, hbefore']
  | @back pre rest pre' rest' _ _ hback hback' hpre ht hrest =>
    have hbefore : tokensBefore sp.tokens t = (sp.front ++ sp.middle ++ pre).reverse := by
      rw [tokens_back hback]
      exact tokensBefore_eq (tokens_back hback ▸ sp.numbered_tokens)
    have hbefore' : tokensBefore sp.tokens' t' = (sp.front ++ sp.middle' ++ pre').reverse := by
      rw [tokens'_back hback']
      exact tokensBefore_eq (tokens'_back hback' ▸ sp.numbered_tokens')
    rw [hbefore, hbefore']
    exact docCommentBefore_congr skipped (h.documentation skipped hskipped) hpre

/-- Keywords outside of the stretches are read alike. -/
theorem sameReading (h : sp.Seamless) {later : List Event}
    (hlater : ∀ t scope, .passed t scope ∈ later → t ∈ sp.back) :
    sp.pairing.SameReading sp.tokens sp.tokens' (sp.passage ++ later) where
  statement := h.statement
  imports := by
    intro t t' hpaired huse
    have hreads := h.readsAlike hpaired (by simp [huse])
    rw [huse] at hreads
    exact hreads.imports t.line t'.line
  constants := fun hpaired hpass hkind =>
    (h.constantsAlike hlater hpaired hpass hkind).constants _ _ _ _
  name := by
    intro t t' hpaired howner
    rw [declaredName_eq, declaredName_eq]
    exact (h.readsAlike hpaired fun hconst => by rw [hconst] at howner; cases howner).name howner
  documentation := fun hpaired _ hskipped => h.docComment hpaired hskipped

end Seamless

/-! ## Traversals -/

/-- The state in which a traversal enters the stretches. -/
def entry (sp : Splice) : Traversal := (Traversal.run [] {} sp.front).1

/-- The stretches are passed with events, and leave the traversals in paired states. Where a function may
wait after the second stretch alone, it waits no more when the next brace opens. -/
structure Joins (sp : Splice) (stale : Bool) (events events' : List Event) : Prop where
  passed : ∃ last last', Traversal.run sp.back sp.entry sp.middle = (last, events) ∧
    Traversal.run sp.back' sp.entry sp.middle' = (last', events') ∧ sp.pairing.States stale last last' ∧
    (stale = true → last.NoBraceFirst [] sp.back)

theorem bounds_end (sp : Splice) :
    sp.pairing.Bounds ((sp.tokens.length : Int) - 1) ((sp.tokens'.length : Int) - 1) := by
  have hlength : sp.tokens.length = sp.front.length + (sp.middle.length + sp.back.length) := by
    rw [tokens, List.length_append, List.length_append]
  have hlength' : sp.tokens'.length = sp.front.length + (sp.middle'.length + sp.back'.length) := by
    rw [tokens', List.length_append, List.length_append]
  intro t t' hpaired
  cases hpaired with
  | front hfront =>
    have := index_front hfront
    omega
  | back hback hback' =>
    have h₁ := index_back hback
    have h₂ := index_back' hback'
    have h₃ := congrArg List.length hback
    have h₄ := congrArg List.length hback'
    simp only [List.length_append, List.length_cons] at h₃ h₄
    omega

/-- What stands before the stretches is passed alike. -/
theorem front_both (sp : Splice) : sp.pairing.Both false (Traversal.run [] {} sp.front)
    (Traversal.run [] {} sp.front) := by
  have hstart : sp.pairing.States false {} {} := ⟨.nil, .inl .none, Iff.rfl⟩
  exact Pairing.run_both hstart sp.paired_front (.inr rfl) nofun

/-- The stretches are entered in the same state. -/
theorem entry_states (sp : Splice) : sp.pairing.States false sp.entry sp.entry := sp.front_both.1

variable {stale : Bool} {events events' : List Event}

/-- The events of the two streams: the same ones before the stretches, the events of the stretches, and
paired ones after them. -/
structure Around (sp : Splice) (events events' later later' : List Event) : Prop where
  first : Traversal.events sp.tokens = sp.passage ++ (events ++ later)
  second : Traversal.events sp.tokens' = sp.passage ++ (events' ++ later')
  front : List.Forall₂ sp.pairing.Events sp.passage sp.passage
  back : List.Forall₂ sp.pairing.Events later later'
  later_back : ∀ t scope, .passed t scope ∈ later → t ∈ sp.back

/-- The traversals of the two streams have paired events outside of the stretches. -/
theorem exists_around (hfront : SelfContained sp.front) (h : sp.Joins stale events events') :
    ∃ later later', sp.Around events events' later later' := by
  obtain ⟨last, last', hmiddle, hmiddle', hstates, hbrace⟩ := h.passed
  have hback : sp.pairing.Both stale (Traversal.run [] last sp.back) (Traversal.run [] last' sp.back') :=
    Pairing.run_both hstates sp.paired_back (.inr rfl) hbrace
  have hrun (middle back : List Token) (last : Traversal) (events : List Event)
      (hmiddle : Traversal.run back sp.entry middle = (last, events)) :
      Traversal.run [] {} (sp.front ++ (middle ++ back)) =
        ((Traversal.run [] last back).1, sp.passage ++ (events ++ (Traversal.run [] last back).2)) := by
    rw [Traversal.run_append, Traversal.run_congr {} hfront [] (middle ++ back ++ []),
      Traversal.run_append, List.append_nil, ← entry, hmiddle]
    rfl
  refine ⟨(Traversal.run [] last sp.back).2 ++
      (Traversal.run [] last sp.back).1.finish ((sp.tokens.length : Int) - 1),
    (Traversal.run [] last' sp.back').2 ++
      (Traversal.run [] last' sp.back').1.finish ((sp.tokens'.length : Int) - 1), ?_, ?_,
    sp.front_both.2, List.rel_append hback.2 (Pairing.finish_events hback.1 sp.bounds_end), ?_⟩
  · rw [Traversal.events, lastIndex_eq sp.numbered_tokens, tokens,
      hrun sp.middle sp.back last events hmiddle]
    simp only [List.append_assoc]
  · rw [Traversal.events, lastIndex_eq sp.numbered_tokens', tokens',
      hrun sp.middle' sp.back' last' events' hmiddle']
    simp only [List.append_assoc]
  · intro t scope hpassed
    rcases List.mem_append.mp hpassed with hpassed | hpassed
    · exact Traversal.mem_of_passed_run hpassed
    · exact absurd hpassed Traversal.not_passed_finish

/-! ## Declarations -/

/-- The scopes that close in the first stretch and the statements in it are none; those of the second
stretch declare nothing but functions. -/
structure Inert (sp : Splice) (events events' : List Event) : Prop where
  closed : closedScopes events = []
  passes : statementPasses sp.tokens events = []
  functions : ∀ s ∈ closedScopes events', ∀ kind, ownerDeclaration? s = some kind → kind = .functionKind
  clauses : ∀ pass ∈ statementPasses sp.tokens' events', ∀ namespaces closed,
    statementListings sp.tokens' namespaces (Pairing.statementAt closed pass) = [] ∧
      statementFault? sp.tokens' (Pairing.statementAt closed pass) = none

/-- The functions that the scopes of the second stretch declare. -/
def strays (sp : Splice) (events' : List Event) : List Listing :=
  functionListings sp.tokens' (closedScopes events')

theorem closedScopes_append (xs ys : List Event) :
    closedScopes (xs ++ ys) = closedScopes xs ++ closedScopes ys :=
  List.filterMap_append

/-- Where tokens are passed, no scope closes. -/
theorem closedScopes_passed (ts : List Token) (scope : Option Scope) :
    closedScopes (ts.map (.passed · scope)) = [] := by
  rw [closedScopes, List.filterMap_map]
  exact List.filterMap_eq_nil_iff.mpr fun t ht => rfl

theorem ownedScopes_eq_nil {closed : List Scope} {kind : DeclarationKind}
    (h : ∀ s ∈ closed, ownerDeclaration? s ≠ some kind) : ownedScopes closed kind = [] :=
  List.filterMap_eq_nil_iff.mpr fun s hs => if_neg (h s hs)

/-- The statements that are found in a stream are those at the keywords that are passed. -/
theorem statements_eq_map (tokens : List Token) (events : List Event) :
    statements tokens events =
      (statementPasses tokens events).map (Pairing.statementAt (closedScopes events)) :=
  statements_eq tokens events

namespace Around

variable {later later' : List Event}

theorem closedScopes_first (h : sp.Around events events' later later')
    (hinert : sp.Inert events events') :
    closedScopes (Traversal.events sp.tokens) = closedScopes sp.passage ++ closedScopes later := by
  rw [h.first, closedScopes_append, closedScopes_append, hinert.closed, List.nil_append]

theorem closedScopes_second (h : sp.Around events events' later later') :
    closedScopes (Traversal.events sp.tokens') =
      closedScopes sp.passage ++ (closedScopes events' ++ closedScopes later') := by
  rw [h.second, closedScopes_append, closedScopes_append]

/-- The scopes of namespaces and structures are outside of the stretches. -/
theorem owned (h : sp.Around events events' later later') (hinert : sp.Inert events events')
    {kind : DeclarationKind} (hkind : kind ≠ .functionKind) :
    List.Forall₂ (sp.pairing.Owned kind) (ownedScopes (closedScopes (Traversal.events sp.tokens)) kind)
      (ownedScopes (closedScopes (Traversal.events sp.tokens')) kind) := by
  have hnone : ownedScopes (closedScopes events') kind = [] :=
    ownedScopes_eq_nil fun s hs howner => hkind (hinert.functions s hs kind howner)
  rw [h.closedScopes_first hinert, h.closedScopes_second, ownedScopes_append, ownedScopes_append,
    ownedScopes_append, hnone, List.nil_append]
  exact List.rel_append (Pairing.ownedScopes_paired (Pairing.closedScopes_paired h.front) kind)
    (Pairing.ownedScopes_paired (Pairing.closedScopes_paired h.back) kind)

variable (hseamless : sp.Seamless) (h : sp.Around events events' later later')
  (hinert : sp.Inert events events')

include hseamless h hinert

theorem sameSpaces : sp.pairing.SameSpaces
    (spacesOf sp.tokens)
    (spacesOf sp.tokens') :=
  (hseamless.sameReading h.later_back).sameSpaces (h.owned hinert (by simp))

/-- The statements outside of the stretches are declared alike and faulty alike, and those of the
stretches declare nothing. -/
theorem statements :
    ((Reflection.statements sp.tokens' (Traversal.events sp.tokens')).flatMap (statementListings sp.tokens'
        (spacesOf sp.tokens'))).map Listing.content =
      ((Reflection.statements sp.tokens (Traversal.events sp.tokens)).flatMap (statementListings sp.tokens
        (spacesOf sp.tokens))).map Listing.content ∧
    ((∀ s ∈ Reflection.statements sp.tokens' (Traversal.events sp.tokens'),
        statementFault? sp.tokens' s = none) ↔
      ∀ s ∈ Reflection.statements sp.tokens (Traversal.events sp.tokens),
        statementFault? sp.tokens s = none) := by
  have hpasses : statementPasses sp.tokens (Traversal.events sp.tokens) =
      statementPasses sp.tokens sp.passage ++ statementPasses sp.tokens later := by
    rw [h.first, statementPasses_append, statementPasses_append, hinert.passes, List.nil_append]
  have hpasses' : statementPasses sp.tokens' (Traversal.events sp.tokens') =
      statementPasses sp.tokens' sp.passage ++
        (statementPasses sp.tokens' events' ++ statementPasses sp.tokens' later') := by
    rw [h.second, statementPasses_append, statementPasses_append]
  have hreading := hseamless.sameReading h.later_back
  have hspaces := h.sameSpaces hseamless hinert
  rw [statements_eq_map, statements_eq_map, hpasses, hpasses']
  revert hspaces
  generalize spacesOf sp.tokens = namespaces
  generalize spacesOf sp.tokens' = namespaces'
  generalize closedScopes (Traversal.events sp.tokens) = closed
  generalize closedScopes (Traversal.events sp.tokens') = closed'
  intro hspaces
  obtain ⟨hfront, hfaults⟩ := hreading.contents_statements hspaces
    (hreading.statementPasses_paired h.front (List.subset_append_left ..)) closed closed'
  obtain ⟨hback, hfaults'⟩ := hreading.contents_statements hspaces
    (hreading.statementPasses_paired h.back (List.subset_append_right ..)) closed closed'
  have hnone : ((statementPasses sp.tokens' events').flatMap fun pass =>
      (statementListings sp.tokens' namespaces' (Pairing.statementAt closed' pass)).map
        Listing.content) = [] := by
    refine List.flatMap_eq_nil_iff.mpr fun pass hpass => ?_
    rw [(hinert.clauses pass hpass namespaces' closed').1, List.map_nil]
  have hsound : ∀ pass ∈ statementPasses sp.tokens' events',
      statementFault? sp.tokens' (Pairing.statementAt closed' pass) = none :=
    fun pass hpass => (hinert.clauses pass hpass namespaces' closed').2
  constructor
  · simp only [List.flatMap_map, List.flatMap_append, List.map_append, List.map_flatMap, hfront, hback,
      hnone, List.nil_append]
  · simp only [List.forall_mem_map, List.forall_mem_append, hfaults, hfaults']
    exact and_congr_right fun _ => ⟨And.right, fun hlast => ⟨hsound, hlast⟩⟩

/-- What the streams declare: the second one declares the functions of its stretch, and else the same. -/
theorem listings : ∃ first first' last last',
    streamListings sp.tokens = first ++ last ∧
    streamListings sp.tokens' = first' ++ (sp.strays events' ++ last') ∧
    first'.map Listing.content = first.map Listing.content ∧
    last'.map Listing.content = last.map Listing.content := by
  have hreading := hseamless.sameReading h.later_back
  have hspaces := h.sameSpaces hseamless hinert
  have hfile : (fileListings sp.tokens').map Listing.content =
      (fileListings sp.tokens).map Listing.content := by
    rw [fileListings_eq, fileListings_eq, List.map_append, List.map_append,
      (h.statements hseamless hinert).1, hreading.contents_namespaces (h.owned hinert (by simp))]
  have hstructures : (structureListings sp.tokens').map Listing.content =
      (structureListings sp.tokens).map Listing.content := by
    have hkind (kind : DeclarationKind) (hkind : kind ≠ .functionKind) :=
      hreading.contents_scoped hspaces (h.owned hinert hkind)
    simp only [structureListings, DeclarationKind.structures, List.flatMap_cons, List.flatMap_nil,
      List.map_append, hkind .interfaceKind (by simp), hkind .traitKind (by simp),
      hkind .classKind (by simp), List.map_nil]
  have hfirst : (functionListings sp.tokens' (closedScopes sp.passage)).map Listing.content =
      (functionListings sp.tokens (closedScopes sp.passage)).map Listing.content :=
    hreading.contents_scoped hspaces
      (Pairing.ownedScopes_paired (Pairing.closedScopes_paired h.front) .functionKind)
  have hlast : (functionListings sp.tokens' (closedScopes later')).map Listing.content =
      (functionListings sp.tokens (closedScopes later)).map Listing.content :=
    hreading.contents_scoped hspaces
      (Pairing.ownedScopes_paired (Pairing.closedScopes_paired h.back) .functionKind)
  refine ⟨fileListings sp.tokens ++ functionListings sp.tokens (closedScopes sp.passage),
    fileListings sp.tokens' ++ functionListings sp.tokens' (closedScopes sp.passage),
    functionListings sp.tokens (closedScopes later) ++ structureListings sp.tokens,
    functionListings sp.tokens' (closedScopes later') ++ structureListings sp.tokens', ?_, ?_, ?_, ?_⟩
  · rw [streamListings_eq, h.closedScopes_first hinert, functionListings_append]
    simp only [List.append_assoc]
  · rw [streamListings_eq, h.closedScopes_second, functionListings_append, functionListings_append]
    simp only [strays, List.append_assoc]
  · rw [List.map_append, List.map_append, hfile, hfirst]
  · rw [List.map_append, List.map_append, hlast, hstructures]

end Around

/-- Both streams can be scanned or neither, and the indexes hold the same under all names but those of
functions that the second stretch declares. -/
theorem scan_agree (options : ScanOptions) {P : DeclarationKind × String → Bool} (hseamless : sp.Seamless)
    (hjoins : sp.Joins stale events events') (hinert : sp.Inert events events')
    (hconst : ∀ name, P (.constKind, name) = true)
    (hstrays : ∀ l ∈ sp.strays events', P l.key = false ∧
      ∀ index, ∃ v, (l.define options index).outcome = .ok v) :
    ((∃ index, (scan options sp.tokens).outcome = .ok index) ↔
      ∃ index', (scan options sp.tokens').outcome = .ok index') ∧
    ∀ index index', (scan options sp.tokens).outcome = .ok index →
      (scan options sp.tokens').outcome = .ok index' → SameHeld P index index' := by
  obtain ⟨later, later', h⟩ := exists_around hseamless.selfContained hjoins
  have hfaults := (h.statements hseamless hinert).2
  by_cases hsound : ∀ s ∈ statements sp.tokens (Traversal.events sp.tokens),
      statementFault? sp.tokens s = none
  · obtain ⟨first, first', last, last', hlistings, hlistings', hfirst, hlast⟩ :=
      h.listings hseamless hinert
    rw [outcome_scan_eq_fileAll options hsound, outcome_scan_eq_fileAll options (hfaults.mpr hsound),
      hlistings, hlistings']
    have hagree := fileAll_agree_extra options hconst hfirst hlast hstrays
      (Eq.refl (DeclarationIndex.held P {}))
    refine ⟨hagree.exists_ok_iff, fun index index' hindex hindex' => ?_⟩
    rw [hindex, hindex'] at hagree
    exact hagree
  · have hfails : ¬∃ index, (scan options sp.tokens).outcome = .ok index :=
      fun ⟨index, hscan⟩ => hsound (faults_of_scan hscan)
    have hfails' : ¬∃ index', (scan options sp.tokens').outcome = .ok index' :=
      fun ⟨index', hscan⟩ => hsound (hfaults.mp (faults_of_scan hscan))
    exact ⟨iff_of_false hfails hfails', fun index index' hscan => absurd ⟨index, hscan⟩ hfails⟩

end Splice
end Reflection
