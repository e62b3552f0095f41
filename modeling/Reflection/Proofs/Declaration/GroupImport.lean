import Reflection.Proofs.Declaration.InProgram
import Reflection.Proofs.Declaration.Symbols

/-!
# Group imports

A group import names several symbols of one namespace, in braces after the name that they share. A scan does
not list these symbols. The braces are a scope all the same: where the import is one of functions, the word
for it waits for a block as the keyword of a function does, and owns them.

## Main definitions

* `GroupImport`: the statement.
* `GroupImport.strayName`: the name of the function that a scan finds in it.

## Main statements

* `GroupImport.run_tokens`: what a traversal makes of a group import.
* `scan_groupImport`: the index of a program with a group import and without it.
-/
namespace Reflection

open Reflection.Text Token

/-- A statement that imports several symbols: its beginning, the name that they share with the separator at
its end, and the rest of their names in braces. -/
structure GroupImport extends ImportHead where
  before : Gap
  lead : List Token
  lead_isNameSeparator : ∀ t ∈ lead, t.isNameSeparator = true
  name : QualifiedName
  separator : Token
  separator_isNameSeparator : separator.isNameSeparator = true
  after : Gap
  opening : Token
  opening_isPunct : opening.isPunct "\x7b" = true
  body : List Token
  body_isClauses : ∀ t ∈ body,
    t.isPlain = true ∨ t.kind = .functionKeyword ∨ t.kind = .constKeyword
  closing : Token
  closing_isPunct : closing.isPunct "\x7d" = true
  trailing : Gap
  semicolon : Token
  semicolon_isPunct : semicolon.isPunct ";" = true

namespace GroupImport

variable (g : GroupImport)

/-- The shared name as written. -/
def nameTokens : List Token := g.lead ++ g.name.tokens ++ [g.separator]

/-- The shared name with the gaps around it. -/
def shared : List Token := g.before.tokens ++ g.nameTokens ++ g.after.tokens

/-- The tokens of a group import, the semicolon left out. -/
def unended : List Token :=
  g.head ++ (g.shared ++ ([g.opening] ++ (g.body ++ ([g.closing] ++ g.trailing.tokens))))

/-- The tokens of a group import. -/
def tokens : List Token := g.unended ++ [g.semicolon]

/-- The tokens after the braces. -/
def afterBraces : List Token := g.closing :: g.trailing.tokens

theorem tokens_append (rest : List Token) : g.tokens ++ rest =
    g.head ++ (g.shared ++ g.opening :: (g.body ++ (g.afterBraces ++ g.semicolon :: rest))) := by
  simp [tokens, unended, afterBraces]

/-! ## Reading -/

/-- A name stops at a gap or a brace, even after a separator. -/
theorem takeNameTokens_gap (afterSeparator : Bool) (gap : Gap) {opening : Token}
    (hopening : opening.isPunct "\x7b" = true) (rest : List Token) :
    takeNameTokens afterSeparator (gap.tokens ++ opening :: rest) =
      ([], gap.tokens ++ opening :: rest) := by
  obtain ⟨tokens, hignorable⟩ := gap
  cases tokens with
  | nil =>
    have hstop : opening.continuesName afterSeparator rest = false := by
      simp [continuesName, Token.isIdentifier, kind_of_isPunct hopening]
    simp [takeNameTokens, hstop]
  | cons t ts =>
    have ht := hignorable t (List.mem_cons_self ..)
    have hstop : t.continuesName afterSeparator (ts ++ opening :: rest) = false := by
      cases hkind : t.kind <;>
        simp_all [continuesName, Token.isIdentifier, isIgnorable, TokenKind.isIgnorable]
    simp [takeNameTokens, hstop]

theorem takeNameTokens_nameTokens (rest : List Token) :
    takeNameTokens false (g.nameTokens ++ (g.after.tokens ++ g.opening :: rest)) =
      (g.nameTokens, g.after.tokens ++ g.opening :: rest) := by
  rw [nameTokens, List.append_assoc, takeNameTokens_append g.lead g.lead_isNameSeparator,
    List.singleton_append, takeNameTokens_separator false g.separator_isNameSeparator,
    takeNameTokens_gap true g.after g.opening_isPunct]

/-- The shared name begins with a separator or an identifier. -/
theorem exists_head : ∃ t rest, g.nameTokens = t :: rest ∧ (t.kind = .separator ∨ t.kind = .identifier) := by
  cases hlead : g.lead with
  | nil =>
    have hkind := (Bool.and_eq_true_iff.mp g.name.head_isNameStart).1
    exact ⟨g.name.head, _, by rw [nameTokens, hlead]; rfl, .inr (beq_iff_eq.mp hkind)⟩
  | cons t lead =>
    have ht := g.lead_isNameSeparator t (by rw [hlead]; exact List.mem_cons_self ..)
    exact ⟨t, _, by rw [nameTokens, hlead]; rfl, .inl (beq_iff_eq.mp (Bool.and_eq_true_iff.mp ht).1)⟩

theorem skipIgnorable_nameTokens (rest : List Token) :
    skipIgnorable (g.nameTokens ++ rest) = g.nameTokens ++ rest := by
  obtain ⟨t, ts, hhead, hkind⟩ := g.exists_head
  have hsignificant : t.isIgnorable = false := by
    rcases hkind with hkind | hkind <;> simp [isIgnorable, hkind, TokenKind.isIgnorable]
  rw [hhead, List.cons_append, skipIgnorable_cons hsignificant]

/-- The shared name as written ends in a separator. -/
theorem spelling_nameTokens :
    spelling g.nameTokens = spelling (g.lead ++ g.name.tokens) ++ "\\" := by
  have htext : g.separator.text = "\\" :=
    beq_iff_eq.mp (Bool.and_eq_true_iff.mp g.separator_isNameSeparator).2
  rw [nameTokens, spelling_append, spelling_cons, spelling_nil, String.append_empty, htext]

theorem endsOpen_append (s : String) : Name.endsOpen (s ++ "\\") = true := by
  rw [Name.endsOpen, String.toList_append, List.getLast?_append]
  rfl

/-- It still does without the separators before it. -/
theorem relative_nameTokens : Name.relative (spelling g.nameTokens) = g.name.text ++ "\\" := by
  have hname := QualifiedName.relative_lead g.lead_isNameSeparator g.name
  rw [Name.relative, trimStart] at hname
  have hne : (spelling (g.lead ++ g.name.tokens)).toList.dropWhile (· == Name.separator) ≠ [] := by
    intro hnil
    rw [hnil] at hname
    exact g.name.text_ne_empty hname.symm
  rw [spelling_nameTokens, Name.relative, trimStart, String.toList_append, List.dropWhile_append,
    if_neg (by simpa using hne), String.ofList_append, hname]
  rfl

/-- No import is read of a group import. -/
theorem readUse_shared (line : Int) (rest : List Token) :
    readUse line (g.wordTokens ++ (g.shared ++ g.opening :: rest)) = ⟨[], none⟩ := by
  have hword : afterUseKind (g.wordTokens ++ (g.shared ++ g.opening :: rest)) =
      g.nameTokens ++ (g.after.tokens ++ g.opening :: rest) := by
    rw [ImportHead.wordTokens, shared, List.append_assoc, List.append_assoc, afterUseKind]
    cases hword : g.word with
    | none =>
      -- The shared name begins with no word for a kind.
      obtain ⟨t, ts, hhead, hkind⟩ := g.exists_head
      have hno : ¬(t.kind = .functionKeyword ∨ t.kind = .constKeyword) := by
        rcases hkind with hkind | hkind <;> simp [hkind]
      rw [Option.map_none, Option.getD_none, List.nil_append, skipIgnorable_gap,
        skipIgnorable_nameTokens, hhead, List.cons_append]
      exact if_neg hno
    | some part =>
      have hkind := g.word_kind part hword
      have hsignificant : part.2.isIgnorable = false := by
        rcases hkind with hkind | hkind <;> simp [isIgnorable, hkind, TokenKind.isIgnorable]
      simp only [Option.map_some, Option.getD_some, List.append_assoc, skipIgnorable_gap,
        List.cons_append, List.nil_append, skipIgnorable_cons hsignificant, if_pos hkind,
        skipIgnorable_nameTokens]
  have hopen : Name.relative (spelling g.nameTokens) = "" ∨
      Name.endsOpen (Name.relative (spelling g.nameTokens)) = true := by
    rw [relative_nameTokens]
    exact .inr (endsOpen_append _)
  rw [readUse, hword, useClauses_first, takeNameTokens_nameTokens, if_pos hopen]

/-- The name that follows the word for functions is the shared name. -/
theorem nameAfter_shared (rest : List Token) :
    nameAfter (g.shared ++ g.opening :: rest) = spelling g.nameTokens := by
  obtain ⟨t, ts, hhead, hkind⟩ := g.exists_head
  have hamp : t.isPunct "&" = false := by
    rcases hkind with hkind | hkind <;> simp [isPunct, hkind]
  have htake := g.takeNameTokens_nameTokens rest
  rw [nameAfter, shared, List.append_assoc, List.append_assoc, skipIgnorable_gap,
    skipIgnorable_nameTokens]
  rw [hhead, List.cons_append] at htake ⊢
  simp only [hamp, Bool.false_eq_true, if_false, takeName, htake]

/-! ## Passing -/

/-- The scope of the braces inside of another one. It belongs to the word for functions. -/
def scope (home : Scope) (outer : List Scope) : Scope where
  level := outer.length + 1
  parent := home.owner
  owner := g.function?
  first := g.opening.index

/-- What is reported of a group import up to its semicolon. -/
def unendedEvents (home : Scope) (outer : List Scope) : List Event :=
  (g.head ++ g.shared).map (.passed · (some home)) ++
    (.opened (g.scope home outer) :: .passed g.opening (some (g.scope home outer)) ::
      (g.body.map (.passed · (some (g.scope home outer))) ++
        (.closed ((g.scope home outer).close g.closing.index) ::
          g.afterBraces.map (.passed · (some home)))))

/-- What is reported of a group import. -/
def events (home : Scope) (outer : List Scope) : List Event :=
  g.unendedEvents home outer ++ [.passed g.semicolon (some home)]

theorem isPlain_shared : ∀ t ∈ g.shared, t.isPlain = true := by
  have hgap (gap : Gap) : ∀ t ∈ gap.tokens, t.isPlain = true := fun t ht =>
    isPlain_of_ignorable (gap.ignorable t ht)
  have hseparator {t : Token} (ht : t.isNameSeparator = true) : t.isPlain = true := by
    have hkind : t.kind = .separator := beq_iff_eq.mp (Bool.and_eq_true_iff.mp ht).1
    simp [isPlain, hkind, TokenKind.isDeclaration, isPunct]
  simp only [shared, nameTokens, List.forall_mem_append, List.forall_mem_singleton]
  exact ⟨⟨hgap g.before, ⟨fun t ht => hseparator (g.lead_isNameSeparator t ht),
    Scanned.isPlain_qualifiedName g.name⟩, hseparator g.separator_isNameSeparator⟩, hgap g.after⟩

variable {home : Scope} {outer : List Scope}

/-- The braces open their scope. -/
theorem run_opening (previous : Option TokenKind) (beyond : List Token) :
    Traversal.run beyond ⟨home :: outer, g.function?, previous⟩ [g.opening] =
      (⟨g.scope home outer :: home :: outer, none, some .punctuation⟩,
        [.opened (g.scope home outer), .passed g.opening (some (g.scope home outer))]) := by
  rw [Traversal.run_cons, Traversal.step_eq, Traversal.process_opening g.opening_isPunct]
  simp [Traversal.note, Traversal.openScope, Traversal.current?, scope,
    isIgnorable_of_isPunct g.opening_isPunct, kind_of_isPunct g.opening_isPunct]

/-- And close it. -/
theorem run_closing (previous : Option TokenKind) (beyond : List Token) :
    Traversal.run beyond ⟨g.scope home outer :: home :: outer, none, previous⟩ [g.closing] =
      (⟨home :: outer, none, some .punctuation⟩,
        [.closed ((g.scope home outer).close g.closing.index), .passed g.closing (some home)]) := by
  rw [Traversal.run_cons, Traversal.step_eq, Traversal.process_closing g.closing_isPunct]
  simp [Traversal.note, Traversal.closeScope, Traversal.current?,
    isIgnorable_of_isPunct g.closing_isPunct, kind_of_isPunct g.closing_isPunct]

/-- No function is declared between the braces. -/
theorem not_ownsFunctions_scope : (g.scope home outer).ownerKind?.any Traversal.ownsFunctions = false := by
  rw [Scope.ownerKind?, scope]
  cases hfunction : g.function? with
  | none => rfl
  | some t =>
    rw [Option.map_some, g.kind_of_mem_function? hfunction]
    rfl

/-- What a traversal makes of a group import up to its semicolon. -/
theorem run_unended (hhome : Home home outer) (previous : Option TokenKind) (beyond : List Token) :
    Traversal.run beyond ⟨home :: outer, none, previous⟩ g.unended =
      (⟨home :: outer, none, some .punctuation⟩, g.unendedEvents home outer) := by
  have hshared : ∀ t ∈ g.shared, Traversal.Quiet (home :: outer) g.function? t := fun t ht =>
    Traversal.quiet_of_isPlain (g.isPlain_shared t ht) (List.cons_ne_nil _ _)
  have hbody : ∀ t ∈ g.body, Traversal.Quiet (g.scope home outer :: home :: outer) none t := by
    intro t ht
    rcases g.body_isClauses t ht with hplain | hfunction | hconst
    · exact Traversal.quiet_of_isPlain hplain (List.cons_ne_nil _ _)
    · exact Traversal.quiet_of_function hfunction g.not_ownsFunctions_scope
    · exact Traversal.quiet_of_statement (.inr hconst)
  have htrailing : ∀ t ∈ g.trailing.tokens, Traversal.Quiet (home :: outer) none t := fun t ht =>
    Traversal.quiet_of_isPlain (isPlain_of_ignorable (g.trailing.ignorable t ht)) (List.cons_ne_nil _ _)
  have hnone : significant g.trailing.tokens = [] :=
    List.filter_eq_nil_iff.mpr fun t ht => by simp [g.trailing.ignorable t ht]
  obtain ⟨previous', hhead⟩ := g.run_head hhome previous
    (g.shared ++ ([g.opening] ++ (g.body ++ ([g.closing] ++ g.trailing.tokens))) ++ beyond)
  rw [unended, Traversal.run_append, hhead, Traversal.run_append, Traversal.run_quiet hshared,
    Traversal.run_append, run_opening, Traversal.run_append, Traversal.run_quiet hbody,
    Traversal.run_append, run_closing, Traversal.run_quiet htrailing, hnone]
  simp only [unendedEvents, afterBraces, List.map_append, List.map_cons, List.append_assoc,
    List.cons_append, List.nil_append, List.head?_cons, List.getLast?_nil, Option.map_none,
    Option.none_or]

/-- What a traversal makes of a group import. -/
theorem run_tokens (hhome : Home home outer) (previous : Option TokenKind) (beyond : List Token) :
    Traversal.run beyond ⟨home :: outer, none, previous⟩ g.tokens =
      (⟨home :: outer, none, some .punctuation⟩, g.events home outer) := by
  have hsemicolon : ∀ t ∈ [g.semicolon], Traversal.Quiet (home :: outer) none t :=
    List.forall_mem_singleton.mpr (Traversal.quiet_of_semicolon g.semicolon_isPunct)
  have hsignificant : significant [g.semicolon] = [g.semicolon] :=
    significant_cons (isIgnorable_of_isPunct g.semicolon_isPunct) []
  rw [tokens, Traversal.run_append, g.run_unended hhome, Traversal.run_quiet hsemicolon, hsignificant,
    List.getLast?_singleton, Option.map_some, kind_of_isPunct g.semicolon_isPunct]
  rfl

/-! ## Declaring -/

theorem closedScopes_events :
    closedScopes (g.events home outer) = [(g.scope home outer).close g.closing.index] := by
  simp only [events, unendedEvents, Splice.closedScopes_append, Splice.closedScopes_passed,
    List.nil_append]
  simp [closedScopes, List.filterMap_append, List.filterMap_map]

end GroupImport

/-! ## Inserting a group import -/

namespace GroupImport

variable {g : GroupImport} {front back back' : List Token} {home : Scope} {outer : List Scope}

/-- The streams without a group import and with it. -/
def splice (g : GroupImport) (hnumbered : Numbered 0 (front ++ back))
    (hnumbered' : Numbered 0 (front ++ (g.tokens ++ back')))
    (hback : back'.map unplaced = back.map unplaced) : Splice where
  front := front
  middle := []
  middle' := g.tokens
  back := back
  back' := back'
  numbered := hnumbered
  numbered' := hnumbered'
  back_unplaced := hback

section

variable (hnumbered : Numbered 0 (front ++ back)) (hnumbered' : Numbered 0 (front ++ (g.tokens ++ back')))
  (hback : back'.map unplaced = back.map unplaced) (hfront : BetweenStatements front)

include hfront

theorem seamless_splice : (g.splice hnumbered hnumbered' hback).Seamless where
  selfContained := hfront.selfContained
  reads := fun ht hconst => hfront.readsAlike ht hconst _ _
  constants := fun ht hkind huse hpassed hlevel =>
    hfront.constantsAlike ht hkind huse hpassed hlevel _ _
  documentation := by
    intro skipped hskipped
    have hlast : docCommentBefore skipped (front ++ g.tokens).reverse = "" := by
      rw [tokens, ← List.append_assoc]
      refine docCommentBefore_boundary (boundary_of_isPunct g.semicolon_isPunct (by simp)) ?_
      rcases List.mem_pair.mp hskipped with rfl | rfl
      · exact List.nil_subset _
      · exact List.Subset.refl _
    have hfirst : docCommentBefore skipped (front ++ []).reverse = "" := by
      rw [List.append_nil]
      exact hfront.docCommentBefore_eq hskipped
    exact hlast.trans hfirst.symm
  imports := by
    have hlast : followsUse (front ++ g.tokens) = false := by
      have hsignificant := isIgnorable_of_isPunct g.semicolon_isPunct
      rw [tokens, ← List.append_assoc, followsUse, List.reverse_append, List.reverse_singleton,
        List.singleton_append, previousSignificant?, List.find?_cons, hsignificant]
      simp [kind_of_isPunct g.semicolon_isPunct]
    have hfirst : followsUse (front ++ []) = false := by
      rw [List.append_nil]
      exact hfront.followsUse_eq
    exact hlast.trans hfirst.symm

omit hfront

/-- A group import leaves the scopes as they are. -/
theorem joins_splice {previous : Option TokenKind}
    (hentry : (Traversal.run [] {} front).1 = ⟨home :: outer, none, previous⟩)
    (hhome : Home home outer) (hprevious : previous ≠ some .doubleColon) :
    (g.splice hnumbered hnumbered' hback).Joins false [] (g.events home outer) := by
  have hself := (g.splice hnumbered hnumbered' hback).entry_states
  have hstart : (g.splice hnumbered hnumbered' hback).entry = ⟨home :: outer, none, previous⟩ := hentry
  rw [hstart] at hself
  refine ⟨⟨⟨home :: outer, none, previous⟩, ⟨home :: outer, none, some .punctuation⟩, ?_, ?_, ?_, nofun⟩⟩
  · rw [hstart]
    rfl
  · rw [hstart]
    exact g.run_tokens hhome previous back'
  · exact ⟨hself.scopes, .inl .none, by simp [hprevious]⟩

/-- No statement of the file stands in the braces. -/
theorem isFileLevel_scope : isFileLevel (some (g.scope home outer)) = false := by
  have howner : (g.scope home outer).ownerKind? ≠ some .namespaceKeyword := by
    intro howner
    obtain ⟨word, hfunction, hkind⟩ := Option.map_eq_some_iff.mp howner
    rw [g.kind_of_mem_function? hfunction] at hkind
    cases hkind
  have hlevel : (g.scope home outer).level ≠ 0 := Nat.succ_ne_zero _
  simp [isFileLevel, howner, hlevel]

/-- Of the keywords of a group import, the first one begins a statement of the file. -/
theorem keyword_of_mem_statementPasses {pass : Token × Option Scope}
    (h : pass ∈ statementPasses (front ++ (g.tokens ++ back')) (g.events home outer))
    (hnumbered' : Numbered 0 (front ++ (g.tokens ++ back'))) : pass.1 = g.keyword := by
  obtain ⟨t, scope⟩ := pass
  obtain ⟨hpassed, hkeyword, hlevel⟩ := mem_statementPasses h
  have hplain (hplain : t.isPlain = true) : t = g.keyword := by
    rw [isStatementKeyword_of_isPlain hplain] at hkeyword
    cases hkeyword
  have hpunct {text : String} (hpunct : t.isPunct text = true) : t = g.keyword := by
    rw [isStatementKeyword_of_ne (by simp [kind_of_isPunct hpunct])
      (by simp [kind_of_isPunct hpunct])] at hkeyword
    cases hkeyword
  simp only [events, unendedEvents, afterBraces, List.mem_append, List.mem_map, List.mem_cons,
    List.not_mem_nil, or_false, Event.passed.injEq, reduceCtorEq, false_or] at hpassed
  rcases hpassed with (⟨u, hu | hu, rfl, -⟩ | ⟨rfl, -⟩ | ⟨u, -, -, rfl⟩ | ⟨u, rfl | hu, rfl, -⟩) | ⟨rfl, -⟩
  · obtain ⟨pre, rest, hhead⟩ := List.append_of_mem hu
    have hdeclares : u.kind.isDeclaration = true := by
      simp only [isStatementKeyword, Bool.or_eq_true, Bool.and_eq_true, beq_iff_eq] at hkeyword
      rcases hkeyword with hkind | ⟨hkind, -⟩ <;> simp [hkind, TokenKind.isDeclaration]
    obtain ⟨-, hu, -⟩ | ⟨part, hword, -, rfl, -⟩ := g.head_split hhead hdeclares
    · exact hu
    · rw [tokens_append] at hnumbered' hkeyword
      rw [g.isStatementKeyword_word hword hnumbered'] at hkeyword
      cases hkeyword
  · exact hplain (g.isPlain_shared u hu)
  · exact hpunct g.opening_isPunct
  · rw [isFileLevel_scope] at hlevel
    cases hlevel
  · exact hpunct g.closing_isPunct
  · exact hplain (isPlain_of_ignorable (g.trailing.ignorable u hu))
  · exact hpunct g.semicolon_isPunct

variable (home outer) in
/-- A group import declares no more than a function. -/
theorem inert_splice :
    (g.splice hnumbered hnumbered' hback).Inert [] (g.events home outer) where
  closed := rfl
  passes := rfl
  functions := by
    intro s hs kind howner
    rw [closedScopes_events, List.mem_singleton] at hs
    subst hs
    have hkind : g.function?.map Token.kind >>= DeclarationKind.ofOwner? = some kind := howner
    cases hfunction : g.function? with
    | none =>
      rw [hfunction] at hkind
      cases hkind
    | some word =>
      rw [hfunction, Option.map_some, g.kind_of_mem_function? hfunction] at hkind
      cases hkind
      rfl
  clauses := by
    intro pass hpass namespaces closed
    have hkeyword := keyword_of_mem_statementPasses hpass hnumbered'
    have hafter : tokensAfter (front ++ (g.tokens ++ back')) g.keyword = g.wordTokens ++
        (g.shared ++ g.opening :: (g.body ++ (g.afterBraces ++ g.semicolon :: back'))) := by
      rw [tokens_append, ImportHead.head, List.cons_append] at hnumbered' ⊢
      exact tokensAfter_eq hnumbered'
    have hread := g.readUse_shared g.keyword.line
      (g.body ++ (g.afterBraces ++ g.semicolon :: back'))
    have htoken : (Pairing.statementAt closed pass).token = g.keyword := hkeyword
    change statementListings (front ++ (g.tokens ++ back')) namespaces _ = [] ∧
      statementFault? (front ++ (g.tokens ++ back')) _ = none
    rw [statementListings, statementFault?, htoken, if_pos g.keyword_kind, if_pos g.keyword_kind,
      useListings, htoken, hafter, hread]
    exact ⟨rfl, rfl⟩

variable (home outer) in
/-- A group import that does not import functions declares nothing. -/
theorem strays_eq_nil (hfunction : g.function? = none) :
    (g.splice hnumbered hnumbered' hback).strays (g.events home outer) = [] := by
  have howner : ownerDeclaration? ((g.scope home outer).close g.closing.index) ≠ some .functionKind := by
    have hnone : ((g.scope home outer).close g.closing.index).owner = none := hfunction
    simp [ownerDeclaration?, Scope.ownerKind?, hnone]
  rw [Splice.strays, closedScopes_events, functionListings, scopedListings,
    Splice.ownedScopes_eq_nil (List.forall_mem_singleton.mpr howner), List.filterMap_nil]

/-- The name under which a group import of functions declares a function. -/
def strayName (g : GroupImport) (tokens : List Token) (word : Token) : String :=
  Name.join ((spacesOf tokens).nameAt word.index) (spelling g.nameTokens)

/-- This name ends in a separator as the shared one does. -/
theorem endsOpen_strayName (tokens : List Token) (word : Token) :
    Name.endsOpen (g.strayName tokens word) = true := by
  rw [strayName, spelling_nameTokens, Name.join]
  split
  · exact endsOpen_append _
  · rw [← String.append_assoc]
    exact endsOpen_append _

/-- A group import of functions declares a function of the shared name. -/
theorem strays_eq {word : Token} (hfunction : g.function? = some word)
    (hhome : Home home outer) :
    ∃ docComment, (g.splice hnumbered hnumbered' hback).strays (g.events home outer) =
      [⟨⟨.functionKind, g.strayName (front ++ (g.tokens ++ back')) word,
        (g.scope home outer).close g.closing.index, word, docComment⟩, .symbol⟩] := by
  have howner : ownerDeclaration? ((g.scope home outer).close g.closing.index) = some .functionKind := by
    have hsome : ((g.scope home outer).close g.closing.index).owner = some word := hfunction
    rw [ownerDeclaration?, Scope.ownerKind?, hsome, Option.map_some, g.kind_of_mem_function? hfunction]
    rfl
  have howned : ownedScopes [(g.scope home outer).close g.closing.index] .functionKind =
      [(word, (g.scope home outer).close g.closing.index)] := by
    rw [ownedScopes, List.filterMap_cons, if_pos howner]
    simp [scope, Scope.close, hfunction]
  have hname : declaredName (front ++ (g.tokens ++ back')) word = spelling g.nameTokens := by
    obtain ⟨part, hword, rfl⟩ := Option.map_eq_some_iff.mp (Option.filter_eq_some_iff.mp hfunction).1
    have htokens : front ++ (g.tokens ++ back') = (front ++ g.keyword :: part.1.tokens) ++
        part.2 :: (g.shared ++ g.opening :: (g.body ++ (g.afterBraces ++ g.semicolon :: back'))) := by
      rw [tokens_append, g.head_of_word hword]
      simp
    rw [declaredName_eq, htokens, tokensAfter_eq (htokens ▸ hnumbered'), nameAfter_shared]
  have hkept : ¬(spelling g.nameTokens = "" ∨ (DeclarationKind.functionKind = .functionKind ∧
      ((g.scope home outer).close g.closing.index).parentKind?.any ownsMethods = true)) := by
    have hparent : ((g.scope home outer).close g.closing.index).parentKind? = home.ownerKind? := rfl
    rintro (hempty | ⟨-, hmethod⟩)
    · have hopen := endsOpen_append (spelling (g.lead ++ g.name.tokens))
      rw [← spelling_nameTokens, hempty] at hopen
      cases hopen
    · rw [hparent, hhome.not_ownsMethods] at hmethod
      cases hmethod
  refine ⟨docCommentBefore [] (tokensBefore (front ++ (g.tokens ++ back')) word), ?_⟩
  have htokens' : (g.splice hnumbered hnumbered' hback).tokens' = front ++ (g.tokens ++ back') := rfl
  rw [Splice.strays, htokens', closedScopes_events, functionListings, scopedListings, howned,
    List.filterMap_cons, List.filterMap_nil]
  dsimp only
  rw [hname, if_neg hkept]
  rfl

end

end GroupImport

/-- A group import that is inserted between two statements declares nothing, unless it imports functions:
then it declares one function more, under the name that the imports share. This name ends in a
separator. -/
theorem scan_groupImport (options : ScanOptions) (g : GroupImport) {front back back' : List Token}
    (hnumbered : Numbered 0 (front ++ back)) (hnumbered' : Numbered 0 (front ++ (g.tokens ++ back')))
    (hback : back'.map unplaced = back.map unplaced) (hfront : BetweenStatements front) :
    let before := (scan options (front ++ back)).outcome
    let after := (scan options (front ++ (g.tokens ++ back'))).outcome
    (g.function? = none →
      ((∃ index, before = .ok index) ↔ ∃ index', after = .ok index') ∧
      ∀ index index', before = .ok index → after = .ok index' →
        ∀ kind, index'.elements kind = index.elements kind) ∧
    ∀ word, g.function? = some word →
      let name := g.strayName (front ++ (g.tokens ++ back')) word
      Name.endsOpen name = true ∧
      (∀ index', after = .ok index' → name ∈ index'.names .functionKind) ∧
      ∀ v, options.define .functionKind name = .ok v →
        ((∃ index, before = .ok index) ↔ ∃ index', after = .ok index') ∧
        ∀ index index', before = .ok index → after = .ok index' →
          (∀ kind ≠ .functionKind, index'.elements kind = index.elements kind) ∧
          (index'.elements .functionKind).filter (·.1 ≠ name) =
            (index.elements .functionKind).filter (·.1 ≠ name) := by
  intro before after
  obtain ⟨home, outer, previous, hentry, hhome, hprevious⟩ := hfront.exists_state
  have hseamless := g.seamless_splice hnumbered hnumbered' hback hfront
  have hjoins := g.joins_splice hnumbered hnumbered' hback hentry hhome hprevious
  have hinert := g.inert_splice home outer hnumbered hnumbered' hback
  constructor
  · intro hfunction
    have hstrays := g.strays_eq_nil home outer hnumbered hnumbered' hback hfunction
    obtain ⟨hcompletes, hheld⟩ := Splice.scan_agree options (P := fun _ => true) hseamless hjoins hinert
      (fun _ => rfl) (by rw [hstrays]; simp)
    exact ⟨hcompletes, fun index index' hindex hindex' kind =>
      DeclarationIndex.elements_of_held (hheld index index' hindex hindex') fun _ => rfl⟩
  · intro word hfunction name
    obtain ⟨docComment, hstrays⟩ := g.strays_eq hnumbered hnumbered' hback hfunction hhome
    have hopen : Name.endsOpen name = true := g.endsOpen_strayName _ word
    have hdeclared : ∀ index', after = .ok index' → name ∈ index'.names .functionKind := by
      intro index' hafter
      obtain ⟨later, later', haround⟩ := Splice.exists_around hseamless.selfContained hjoins
      obtain ⟨-, listings, -, rest, -, hlistings, -, -⟩ := haround.listings hseamless hinert
      refine mem_names_of_mem_streamListings (l := ⟨⟨.functionKind, name,
        (g.scope home outer).close g.closing.index, word, docComment⟩, .symbol⟩) hafter ?_
      change _ ∈ streamListings (g.splice hnumbered hnumbered' hback).tokens'
      rw [hlistings, hstrays]
      exact List.mem_append_right _ (List.mem_append_left _ (List.mem_singleton_self _))
    refine ⟨hopen, hdeclared, fun v hdefine => ?_⟩
    obtain ⟨hcompletes, hheld⟩ := Splice.scan_agree options
      (P := fun key => decide (key ≠ (.functionKind, name))) hseamless hjoins hinert
      (fun _ => by simp) (by
        rw [hstrays, List.forall_mem_singleton]
        refine ⟨by simp [Listing.key, name], fun index => ⟨v, ?_⟩⟩
        exact (Listing.outcome_define_eq_ok_iff rfl).mpr hdefine)
    refine ⟨hcompletes, fun index index' hindex hindex' => ⟨fun kind hkind => ?_, ?_⟩⟩
    · exact DeclarationIndex.elements_of_held (hheld index index' hindex hindex') fun other => by
        simp [hkind]
    · have hfilter (index : DeclarationIndex) :=
        DeclarationIndex.elements_filter (P := fun key => decide (key ≠ (.functionKind, name))) index
          .functionKind
      have hsame := (hfilter index').trans
        ((congrArg _ (hheld index index' hindex hindex')).trans (hfilter index).symm)
      simpa using hsame

/-- The source `use function P\{a};`. -/
def functionGroup : GroupImport where
  keyword := ⟨.useKeyword, "use", 3, 4⟩
  keyword_kind := Eq.refl TokenKind.useKeyword
  word := some (⟨[], Gap.ignorable_nil⟩, ⟨.functionKeyword, "function", 3, 5⟩)
  word_kind := by simp
  before := ⟨[], Gap.ignorable_nil⟩
  lead := []
  lead_isNameSeparator := ImportClause.lead_nil
  name := ⟨⟨.identifier, "P", 3, 6⟩, by decide, [], QualifiedName.tail_nil⟩
  separator := ⟨.separator, "\\", 3, 7⟩
  separator_isNameSeparator := by decide
  after := ⟨[], Gap.ignorable_nil⟩
  opening := ⟨.punctuation, "\x7b", 3, 8⟩
  opening_isPunct := by decide
  body := [⟨.identifier, "a", 3, 9⟩]
  body_isClauses := by decide
  closing := ⟨.punctuation, "\x7d", 3, 10⟩
  closing_isPunct := by decide
  trailing := ⟨[], Gap.ignorable_nil⟩
  semicolon := ⟨.punctuation, ";", 3, 11⟩
  semicolon_isPunct := by decide

/-- The source `<?php namespace N;`. -/
def namespaceFront : List Token :=
  [⟨.openTag, "<?php", 1, 0⟩, ⟨.namespaceKeyword, "namespace", 2, 1⟩, ⟨.identifier, "N", 2, 2⟩,
    ⟨.punctuation, ";", 2, 3⟩]

/-- The namespace of this source. -/
def frontSection : Section where
  keyword := ⟨.namespaceKeyword, "namespace", 2, 1⟩
  keyword_kind := Eq.refl TokenKind.namespaceKeyword
  before := ⟨[], Gap.ignorable_nil⟩
  name := some ⟨⟨.identifier, "N", 2, 2⟩, by decide, [], QualifiedName.tail_nil⟩
  after := ⟨[], Gap.ignorable_nil⟩
  opening := ⟨.punctuation, ";", 2, 3⟩
  block := .ofItems []
  closing := none
  opening_isPunct := Eq.refl true
  closing_isPunct := Section.closing_none

/-- A statement may follow that of the namespace. -/
theorem betweenStatements_namespaceFront : BetweenStatements namespaceFront := by
  let p : Program := ⟨⟨.openTag, "<?php", 1, 0⟩, rfl, .ofItems [], [frontSection]⟩
  have hsections : p.sections = [] ++ frontSection :: [] := rfl
  have hitems : frontSection.block.items = [] ++ [] := rfl
  have hplace : p.Place namespaceFront := .section hsections hitems
  exact (hplace.betweenStatements (by repeat' constructor) (by decide)).1

/-- The namespace has a function `N\P\` after the import, and else the same names as before. -/
theorem scan_groupImport_functionGroup : BetweenStatements namespaceFront ∧
    Numbered 0 (namespaceFront ++ (functionGroup.tokens ++ [])) ∧
    ∃ index, (scan {} (namespaceFront ++ (functionGroup.tokens ++ []))).outcome = .ok index ∧
      "N\\P\\" ∈ index.names .functionKind ∧ index.elements .namespaceKind = [("N", .text "N")] := by
  have hnumbered : Numbered 0 (namespaceFront ++ []) := by
    repeat' constructor
  have hnumbered' : Numbered 0 (namespaceFront ++ (functionGroup.tokens ++ [])) := by
    repeat' constructor
  have hname : functionGroup.strayName (namespaceFront ++ (functionGroup.tokens ++ []))
      ⟨.functionKeyword, "function", 3, 5⟩ = "N\\P\\" := by decide +kernel
  obtain ⟨-, hdeclared, hsame⟩ := (scan_groupImport {} functionGroup hnumbered hnumbered' rfl
    betweenStatements_namespaceFront).2 ⟨.functionKeyword, "function", 3, 5⟩ rfl
  obtain ⟨hcompletes, helements⟩ := hsame _ rfl
  obtain ⟨index, hindex⟩ : ∃ index, (scan {} (namespaceFront ++ [])).outcome = .ok index :=
    exists_ok_of_isOk (by cbv)
  have hnamespaces : index.elements .namespaceKind = [("N", .text "N")] :=
    read_of_eq_ok (·.elements .namespaceKind) hindex (by cbv)
  obtain ⟨index', hindex'⟩ := hcompletes.mp ⟨index, hindex⟩
  refine ⟨betweenStatements_namespaceFront, hnumbered', index', hindex', hname ▸ hdeclared index' hindex', ?_⟩
  rw [(helements index index' hindex hindex').1 .namespaceKind (by decide), hnamespaces]

end Reflection
