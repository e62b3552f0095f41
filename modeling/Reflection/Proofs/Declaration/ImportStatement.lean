import Reflection.Proofs.Declaration.Additions
import Reflection.Proofs.Declaration.Imports
import Reflection.Proofs.Declaration.Members
import Reflection.Proofs.Declaration.Unended
import Reflection.Proofs.Table

/-!
# The imports of one statement

An import statement of a file or of a namespace is read as it is written: one import for each clause
between its commas. The word that says what kind of symbols it imports declares nothing, whatever stands
around the statement: a function that a semicolon ends owns no scope, and a constant keyword after `use`
begins no statement. So the statement adds its imports to an index, in order, and nothing else.

## Main definitions

* `Disowned`: a keyword neither waits after a stretch of a traversal nor owns a scope of it.
* `Statement.imports`: the imports of any statement.
* `ImportItem.entries`, `ImportItem.listings`: what the clauses of an import statement import and declare.

## Main statements

* `not_owner_of_semicolon`: a function that a semicolon ends owns no scope.
* `ImportItem.owner_not_mem`: no token of an import statement owns a declaration.
* `ImportItem.statements_eq`: an import statement is one statement of its stream.
* `elements_useKind_of_scan`: the imports of an index, in order.
* `imports_of_statement`: what an import statement adds to an index.
-/
namespace Reflection

open Token

/-! ## Keywords that own nothing -/

/-- A keyword neither waits after a stretch of a traversal nor owns a scope that opens in it. -/
def Disowned (w : Token) (r : Traversal × List Event) : Prop :=
  r.1.pending ≠ some w ∧ ∀ scope, .opened scope ∈ r.2 → scope.owner ≠ some w

namespace Disowned

variable {s : Traversal} {t w : Token} {rest beyond xs ys : List Token}

/-- Passing another token makes no keyword wait again. -/
theorem step (hwaits : s.pending ≠ some w) (hne : t ≠ w) : Disowned w (s.step t rest) := by
  constructor
  · rw [Traversal.pending_step]
    intro hpending
    rcases s.pending_process t rest with hsame | hnone | ⟨htoken, -⟩
    · exact hwaits (hsame.symm.trans hpending)
    · cases hnone.symm.trans hpending
    · exact hne (Option.some.inj (htoken.symm.trans hpending))
  · intro scope hscope howner
    rw [Traversal.events_step, List.mem_append, List.mem_singleton] at hscope
    obtain hscope | hscope := hscope
    · rcases (Traversal.opened_process hscope).2 with hpending | ⟨htag, -⟩
      · exact hwaits (hpending.symm.trans howner)
      · exact hne (Option.some.inj (htag.symm.trans howner))
    · cases hscope

theorem append (h : Disowned w (Traversal.run (ys ++ beyond) s xs))
    (h' : (Traversal.run (ys ++ beyond) s xs).1.pending ≠ some w →
      Disowned w (Traversal.run beyond (Traversal.run (ys ++ beyond) s xs).1 ys)) :
    Disowned w (Traversal.run beyond s (xs ++ ys)) := by
  rw [Traversal.run_append]
  refine ⟨(h' h.1).1, fun scope hscope => ?_⟩
  rcases List.mem_append.mp hscope with hscope | hscope
  · exact h.2 scope hscope
  · exact (h' h.1).2 scope hscope

/-- A keyword that does not wait owns no scope that opens later, unless it is passed again. -/
theorem run {ts : List Token} (hwaits : s.pending ≠ some w) (hnot : w ∉ ts) :
    Disowned w (Traversal.run beyond s ts) := by
  induction ts generalizing s with
  | nil => exact ⟨hwaits, fun scope => by simp⟩
  | cons t rest ih =>
    rw [List.mem_cons, not_or] at hnot
    have hstep : Disowned w (s.step t (rest ++ beyond)) := step hwaits (Ne.symm hnot.1)
    rw [Traversal.run_cons]
    refine ⟨(ih hstep.1 hnot.2).1, fun scope hscope => ?_⟩
    rcases List.mem_append.mp hscope with hscope | hscope
    · exact hstep.2 scope hscope
    · exact (ih hstep.1 hnot.2).2 scope hscope

/-- The keyword of a function, some tokens that are neither keywords nor braces, and a semicolon. -/
theorem semicolon {plain : List Token} {semicolon : Token} (hw : w.kind = .functionKeyword)
    (hplain : ∀ t ∈ plain, t.isPlain = true) (hsemicolon : semicolon.isPunct ";" = true)
    (hwaits : s.pending ≠ some w) :
    Disowned w (Traversal.run beyond s (w :: (plain ++ [semicolon]))) := by
  have hnot : w ∉ plain ++ [semicolon] := by
    intro hmem
    rcases List.mem_append.mp hmem with hmem | hmem
    · have hkind := kind_of_isPlain (hplain w hmem)
      rw [hw] at hkind
      cases hkind
    · have hkind := kind_of_isPunct hsemicolon
      rw [← List.mem_singleton.mp hmem, hw] at hkind
      cases hkind
  obtain ⟨scopes, pending, previous⟩ := s
  have hsignificant : w.isIgnorable = false := by simp [isIgnorable, hw, TokenKind.isIgnorable]
  by_cases howns : (scopes.head?.bind Scope.ownerKind?).any Traversal.ownsFunctions = true
  · -- The function waits up to the semicolon, which drops it.
    have hscopes : scopes ≠ [] := by
      rintro rfl
      cases howns
    have hstep (rest : List Token) : Traversal.step ⟨scopes, pending, previous⟩ w rest =
        (⟨scopes, some w, some w.kind⟩, [.passed w scopes.head?]) := by
      simp [Traversal.step_eq, Traversal.process, Traversal.note, Traversal.current?, hw, howns, hsignificant]
    have hquiet : ∀ t ∈ plain, Traversal.Quiet scopes (some w) t := fun t ht =>
      Traversal.quiet_of_isPlain (hplain t ht) hscopes
    have hend (previous : Option TokenKind) (rest : List Token) :
        Traversal.process ⟨scopes, some w, previous⟩ semicolon rest = (⟨scopes, none, previous⟩, []) := by
      rw [Traversal.process_semicolon hsemicolon]
      simp [Traversal.terminate, hw]
    rw [Traversal.run_cons, hstep, Traversal.run_append, Traversal.run_quiet hquiet, Traversal.run_cons,
      Traversal.step_eq, hend]
    simp [Disowned]
  · -- The function does not wait at all.
    have hstep (rest : List Token) : (Traversal.process ⟨scopes, pending, previous⟩ w rest) =
        (⟨scopes, pending, previous⟩, []) := by
      simp [Traversal.process, Traversal.current?, hw, howns]
    have hlater : Disowned w
        (Traversal.run beyond (Traversal.note ⟨scopes, pending, previous⟩ w) (plain ++ [semicolon])) :=
      run (by rwa [Traversal.pending_note]) hnot
    rw [Traversal.run_cons, Traversal.step_eq, hstep]
    refine ⟨hlater.1, fun scope hscope => ?_⟩
    rcases List.mem_append.mp hscope with hscope | hscope
    · simp at hscope
    · exact hlater.2 scope hscope

end Disowned

/-- A function that a semicolon ends owns no scope. -/
theorem not_owner_of_semicolon {front plain back : List Token} {w semicolon : Token}
    (hnumbered : Numbered 0 (front ++ (w :: (plain ++ [semicolon]) ++ back)))
    (hw : w.kind = .functionKeyword) (hplain : ∀ t ∈ plain, t.isPlain = true)
    (hsemicolon : semicolon.isPunct ";" = true) {a : Scope}
    (ha : a ∈ closedScopes (Traversal.events (front ++ (w :: (plain ++ [semicolon]) ++ back)))) :
    a.owner ≠ some w := by
  have hfront : w ∉ front := fun hmem => hnumbered.not_mem hmem (by simp)
  have hback : w ∉ back := by
    rw [← List.append_assoc] at hnumbered
    exact hnumbered.not_mem (by simp)
  have hrun : Disowned w (Traversal.run [] {} (front ++ (w :: (plain ++ [semicolon]) ++ back))) :=
    .append (.run (by simp) hfront) fun hwaits =>
      .append (.semicolon hw hplain hsemicolon hwaits) fun hwaits => .run hwaits hback
  have hopened := (attributed_events hnumbered).1.reopen_mem ((mem_closedScopes_events hnumbered a).mp ha)
  obtain ⟨event, hevent, heq⟩ := List.mem_filterMap.mp hopened
  cases event with
  | opened scope =>
    obtain rfl := Option.some.inj heq
    rcases List.mem_append.mp hevent with hevent | hevent
    · exact hrun.2 a.reopen hevent
    · obtain ⟨c, -, hc⟩ := List.mem_map.mp hevent
      cases hc
  | _ => cases heq

/-! ## Statements of a stream -/

namespace ImportItem

variable (u : ImportItem)

/-- The keywords of an import statement: its own one, and perhaps the word. -/
theorem keyword_of_mem {t : Token} (ht : t ∈ u.tokens) (hdeclares : t.kind.isDeclaration = true) :
    t = u.keyword ∨ ∃ part, u.word = some part ∧ t = part.2 := by
  rw [tokens_eq_unended, unended, List.mem_append, List.mem_append, List.mem_singleton] at ht
  rcases ht with (hhead | hclauses) | rfl
  · obtain ⟨pre, rest, hsplit⟩ := List.append_of_mem hhead
    obtain ⟨-, rfl, -⟩ | ⟨part, hpart, -, rfl, -⟩ := u.importHead.head_split hsplit hdeclares
    · exact .inl rfl
    · exact .inr ⟨part, hpart, rfl⟩
  · rw [u.isDeclaration_clauses t hclauses] at hdeclares
    cases hdeclares
  · rw [kind_of_isPunct u.semicolon_isPunct] at hdeclares
    cases hdeclares

/-- A stream around the statement, split at its keyword. -/
theorem split_keyword (before rest : List Token) :
    before ++ (u.tokens ++ rest) = before ++ u.keyword :: (u.tokens.tail ++ rest) := by
  rw [tokens_eq]
  rfl

theorem tokens_of_word {part : Gap × Token} (h : u.word = some part) : u.tokens =
    (u.keyword :: part.1.tokens) ++
      part.2 :: (u.clauses.tokens ImportClause.tokens ++ [u.semicolon]) := by
  simp [tokens_eq, afterKeyword, h]

variable {before rest : List Token} (hnumbered : Numbered 0 (before ++ (u.tokens ++ rest)))

include hnumbered

/-- No token of an import statement owns a declaration. -/
theorem owner_not_mem {a : Scope} {d : Token} {kind : DeclarationKind}
    (ha : a ∈ closedScopes (Traversal.events (before ++ (u.tokens ++ rest))))
    (hd : a.owner = some d) (hkind : DeclarationKind.ofOwner? d.kind = some kind) : d ∉ u.tokens := by
  intro hmem
  have hdeclares : d.kind.isDeclaration = true := by
    cases hdkind : d.kind <;> simp_all [DeclarationKind.ofOwner?, TokenKind.isDeclaration]
  obtain rfl | ⟨part, hpart, rfl⟩ := u.keyword_of_mem hmem hdeclares
  · rw [u.keyword_kind] at hkind
    cases hkind
  · rcases u.word_kind part hpart with hword | hword
    · have hsplit : before ++ (u.tokens ++ rest) = (before ++ u.keyword :: part.1.tokens) ++
          (part.2 :: (u.clauses.tokens ImportClause.tokens ++ [u.semicolon]) ++ rest) := by
        rw [u.tokens_of_word hpart]
        simp
      rw [hsplit] at hnumbered ha
      exact not_owner_of_semicolon hnumbered hword u.isPlain_clauses u.semicolon_isPunct ha hd
    · rw [hword] at hkind
      cases hkind

/-- No token of an import statement but its keyword begins a statement. -/
theorem isStatementKeyword_of_mem {t : Token} (ht : t ∈ u.tokens) (hne : t ≠ u.keyword) :
    isStatementKeyword (before ++ (u.tokens ++ rest)) t = false := by
  by_cases hdeclares : t.kind.isDeclaration = true
  · obtain hkeyword | ⟨part, hpart, rfl⟩ := u.keyword_of_mem ht hdeclares
    · exact absurd hkeyword hne
    · have hsplit : before ++ (u.tokens ++ rest) = before ++ (u.importHead.head ++
          (u.clauses.tokens ImportClause.tokens ++ ([u.semicolon] ++ rest))) := by
        rw [tokens_eq_unended, unended]
        simp
      rw [hsplit] at hnumbered ⊢
      exact u.importHead.isStatementKeyword_word hpart hnumbered
  · refine isStatementKeyword_of_ne (fun huse => hdeclares ?_) fun hconst => hdeclares ?_
    · rw [huse]
      rfl
    · rw [hconst]
      rfl

/-- What a scan finds around an import statement are statements before it and after it. -/
theorem statementPasses_eq {scope : Option Scope}
    (hpassed : .passed u.keyword scope ∈ Traversal.events (before ++ (u.tokens ++ rest)))
    (hlevel : isFileLevel scope = true) :
    ∃ earlier later, statementPasses (before ++ (u.tokens ++ rest))
        (Traversal.events (before ++ (u.tokens ++ rest))) = earlier ++ (u.keyword, scope) :: later ∧
      (∀ pass ∈ earlier, pass.1 ∈ before) ∧ ∀ pass ∈ later, pass.1 ∈ rest := by
  have hsplit := u.split_keyword before rest
  have hnumbered' := hnumbered
  rw [hsplit] at hnumbered'
  have hbefore : u.keyword ∉ before := fun hmem => hnumbered'.not_mem hmem (List.mem_cons_self ..)
  have hkeyword : u.keyword ∉ u.tokens.tail ++ rest := by
    rw [List.append_cons] at hnumbered'
    exact hnumbered'.not_mem (by simp)
  have htail : u.keyword ∉ u.tokens.tail := fun hmem => hkeyword (List.mem_append_left _ hmem)
  have hrest : u.keyword ∉ rest := fun hmem => hkeyword (List.mem_append_right _ hmem)
  obtain ⟨s, first, last, hevents, hfirst, hlast⟩ :=
    Traversal.events_split before u.tokens.tail rest u.keyword
  rw [← hsplit, Traversal.step_eq, Traversal.process_statement (.inl u.keyword_kind), List.nil_append]
    at hevents
  have hscope : s.current? = scope := by
    rw [hevents] at hpassed
    simp only [List.mem_append, List.mem_singleton] at hpassed
    rcases hpassed with hpassed | hpassed | hpassed | hpassed
    · exact absurd (hfirst _ _ hpassed) hbefore
    · cases hpassed
      rfl
    · exact absurd (Traversal.mem_of_passed_run hpassed) htail
    · exact absurd (hlast _ _ hpassed) hrest
  have hinside (beyond : List Token) (s : Traversal) : statementPasses (before ++ (u.tokens ++ rest))
      (Traversal.run beyond s u.tokens.tail).2 = [] := by
    refine List.eq_nil_iff_forall_not_mem.mpr fun pass hpass => ?_
    obtain ⟨hmem, hstatement, -⟩ := mem_statementPasses hpass
    have hpass := Traversal.mem_of_passed_run hmem
    rw [u.isStatementKeyword_of_mem hnumbered (List.mem_of_mem_tail hpass)
      (ne_of_mem_of_not_mem hpass htail)] at hstatement
    cases hstatement
  have hpass : statementPasses (before ++ (u.tokens ++ rest)) [.passed u.keyword scope] =
      [(u.keyword, scope)] := by
    rw [statementPasses_passed]
    simp [isStatementKeyword, u.keyword_kind, hlevel]
  refine ⟨statementPasses (before ++ (u.tokens ++ rest)) first,
    statementPasses (before ++ (u.tokens ++ rest)) last, ?_,
    fun pass hmem => hfirst _ _ (mem_statementPasses hmem).1,
    fun pass hmem => hlast _ _ (mem_statementPasses hmem).1⟩
  rw [hevents, statementPasses_append, statementPasses_append, statementPasses_append, hinside, hscope,
    hpass]
  rfl

/-- An import statement is one statement of its stream, between those before it and after it. -/
theorem statements_eq {scope : Option Scope}
    (hpassed : .passed u.keyword scope ∈ Traversal.events (before ++ (u.tokens ++ rest)))
    (hlevel : isFileLevel scope = true) :
    ∃ earlier s later, statements (before ++ (u.tokens ++ rest))
        (Traversal.events (before ++ (u.tokens ++ rest))) = earlier ++ s :: later ∧
      s.token = u.keyword ∧ (∀ x ∈ earlier, x.token ∈ before) ∧ ∀ x ∈ later, x.token ∈ rest := by
  obtain ⟨earlier, later, hpasses, hearlier, hlater⟩ := u.statementPasses_eq hnumbered hpassed hlevel
  have htokens {passes : List (Token × Option Scope)} {ts : List Token} {f : Token × Option Scope → Scope}
      (h : ∀ pass ∈ passes, pass.1 ∈ ts) :
      ∀ x ∈ passes.map fun pass => (⟨pass.1, f pass⟩ : Statement), x.token ∈ ts := by
    intro x hx
    obtain ⟨pass, hpass, rfl⟩ := List.mem_map.mp hx
    exact h pass hpass
  rw [Reflection.statements_eq, hpasses, List.map_append, List.map_cons]
  exact ⟨_, _, _, rfl, rfl, htokens hearlier, htokens hlater⟩

end ImportItem

/-! ## Imports of an index -/

/-- What a clause adds to the imports of an index. -/
def UseClause.entry (c : UseClause) : String × Definition := (c.name, .text c.localName)

/-- The imports of a statement. -/
def Statement.imports (tokens : List Token) (s : Statement) : List UseClause :=
  if s.token.kind = .useKeyword then (readUse s.token.line (tokensAfter tokens s.token)).items else []

section

variable {options : ScanOptions} {tokens : List Token} {index last : DeclarationIndex}

/-- Adding a declaration writes it into the imports only where it is one. -/
theorem DeclarationIndex.elements_useKind_add (index : DeclarationIndex) (d : Declaration)
    (definition : Definition) : (index.add d definition).1.elements .useKind =
      if d.kind = .useKind then Table.insert (index.elements .useKind) d.name definition
      else index.elements .useKind := by
  have helements (index : DeclarationIndex) : index.elements .useKind =
      Table.mapValues (fun _ => Prod.fst) (index.ofKind .useKind) := rfl
  rw [helements, helements, ofKind_add]
  by_cases hkind : d.kind = .useKind
  · rw [if_pos hkind, if_pos ⟨hkind, by simp⟩, Table.mapValues_insert]
  · rw [if_neg hkind, if_neg fun h => hkind h.1]

/-- Filing declarations writes their imports, one after the other. -/
theorem elements_useKind_fileAll {listings : List Listing} (hsorted : ∀ l ∈ listings, l.WellSorted)
    (h : (fileAll options index listings).outcome = .ok last) :
    last.elements .useKind = Table.insertAll (index.elements .useKind)
      ((listings.filterMap Listing.importClause?).map UseClause.entry) := by
  induction listings generalizing index with
  | nil =>
    cases h
    rfl
  | cons l rest ih =>
    obtain ⟨definition, hdefinition, h⟩ := (fileAll_cons_eq_ok_iff options).mp h
    rw [ih (fun l' hl' => hsorted l' (List.mem_cons_of_mem _ hl')) h,
      DeclarationIndex.elements_useKind_add]
    obtain ⟨hkind, hclause⟩ | ⟨localName, hkind, rfl, hclause⟩ :=
      Listing.importClause?_cases (hsorted l (List.mem_cons_self ..)) hdefinition
    · rw [if_neg hkind, List.filterMap_cons_none hclause]
    · rw [if_pos hkind, List.filterMap_cons_some hclause]
      rfl

/-- The imports of an index are those of the stream, written one after the other. -/
theorem elements_useKind_of_scan (h : (scan options tokens).outcome = .ok index) :
    index.elements .useKind = Table.ofEntries ((importClauses tokens).map UseClause.entry) := by
  rw [outcome_scan_of_completed h options] at h
  rw [elements_useKind_fileAll wellSorted_streamListings h, filterMap_streamListings]
  rfl

end

/-! ## One statement -/

namespace ImportItem

variable (u : ImportItem)

/-- What an import statement imports, by name. -/
def entries : Table String Definition := u.clauses.toList.map fun c => c.clause.entry

/-- The declarations of an import statement in a scope. -/
def listings (home : Scope) : List Listing := u.clauses.toList.map fun c =>
  ⟨⟨.useKind, c.clause.name, home, u.keyword, ""⟩, .text c.clause.localName⟩

theorem wellSorted_listings (home : Scope) : ∀ l ∈ u.listings home, l.WellSorted := by
  intro l hl
  obtain ⟨c, -, rfl⟩ := List.mem_map.mp hl
  exact .inr rfl

theorem filterMap_listings (home : Scope) :
    (u.listings home).filterMap Listing.importClause? = u.clauses.toList.map ImportClause.clause := by
  rw [listings, List.filterMap_map, ← List.filterMap_eq_map]
  rfl

/-- Imports are filed, whatever there is already. -/
theorem exists_ok_fileAll_listings (options : ScanOptions) (index : DeclarationIndex) (home : Scope) :
    ∃ last, (fileAll options index (u.listings home)).outcome = .ok last := by
  unfold listings
  generalize u.clauses.toList = clauses
  induction clauses generalizing index with
  | nil => exact ⟨index, rfl⟩
  | cons c rest ih =>
    obtain ⟨last, hlast⟩ := ih (index.add ⟨.useKind, c.clause.name, home, u.keyword, ""⟩
      (.text c.clause.localName)).1
    exact ⟨last, (fileAll_cons_eq_ok_iff options).mpr ⟨.text c.clause.localName, rfl, hlast⟩⟩

variable {before rest : List Token} {s : Statement}
  (hnumbered : Numbered 0 (before ++ (u.tokens ++ rest))) (htoken : s.token = u.keyword)

include hnumbered htoken

/-- The statement is read as it is written, whatever stands around it. -/
theorem readUse_statement (line : Int) :
    readUse line (tokensAfter (before ++ (u.tokens ++ rest)) s.token) =
      ⟨u.clauses.toList.map ImportClause.clause, none⟩ := by
  rw [u.split_keyword] at hnumbered ⊢
  rw [htoken, tokensAfter_eq hnumbered, readUse_eq]

theorem imports_statement :
    s.imports (before ++ (u.tokens ++ rest)) = u.clauses.toList.map ImportClause.clause := by
  have hkind : s.token.kind = .useKeyword := by rw [htoken, u.keyword_kind]
  rw [Statement.imports, if_pos hkind, u.readUse_statement hnumbered htoken]

theorem statementListings_eq (namespaces : NamespaceScopes) :
    statementListings (before ++ (u.tokens ++ rest)) namespaces s = u.listings s.scope := by
  have hkind : s.token.kind = .useKeyword := by rw [htoken, u.keyword_kind]
  rw [statementListings, if_pos hkind, useListings, u.readUse_statement hnumbered htoken, List.map_map,
    htoken]
  rfl

/-- The statement is filed in any case. It writes its imports, and leaves the other declarations. -/
theorem exists_ok_fileStatement (options : ScanOptions) (namespaces : NamespaceScopes)
    (index : DeclarationIndex) : ∃ filed,
      (fileStatement options (before ++ (u.tokens ++ rest)) namespaces index s).outcome = .ok filed ∧
        filed.elements .useKind = Table.insertAll (index.elements .useKind) u.entries ∧
        ∀ kind, kind ≠ .useKind → filed.ofKind kind = index.ofKind kind := by
  have hkind : s.token.kind = .useKeyword := by rw [htoken, u.keyword_kind]
  have hfault : statementFault? (before ++ (u.tokens ++ rest)) s = none := by
    rw [statementFault?, if_pos hkind, u.readUse_statement hnumbered htoken]
  obtain ⟨filed, hfiled⟩ := u.exists_ok_fileAll_listings options index s.scope
  have hstatement : (fileStatement options (before ++ (u.tokens ++ rest)) namespaces index s).outcome =
      .ok filed := by
    rw [fileStatement_eq_fileAll options hfault, u.statementListings_eq hnumbered htoken, hfiled]
  refine ⟨filed, hstatement, ?_, fun kind hother => ?_⟩
  · rw [elements_useKind_fileAll (u.wellSorted_listings s.scope) hfiled, filterMap_listings, List.map_map]
    rfl
  · have hkept : KeptBy (fun found => found.ofKind kind = index.ofKind kind) .useKind := by
      intro found d definition hd hfound
      rw [DeclarationIndex.ofKind_add, if_neg fun h => hother (h.1.symm.trans hd), hfound]
    rw [fileStatement, if_pos hkind] at hstatement
    exact hkept.fileUse rfl hstatement

/-- What the tokens of a statement declare are its imports. -/
theorem filter_streamListings {earlier later : List Statement}
    (hstatements : statements (before ++ (u.tokens ++ rest))
      (Traversal.events (before ++ (u.tokens ++ rest))) = earlier ++ s :: later)
    (hearlier : ∀ x ∈ earlier, x.token ∈ before)
    (hlater : ∀ x ∈ later, x.token ∈ rest) :
    (streamListings (before ++ (u.tokens ++ rest))).filter (·.declaration.token ∈ u.tokens) =
      u.listings s.scope := by
  have howned {kind : DeclarationKind} {keyword : Token} {a : Scope}
      (h : (keyword, a) ∈ ownedScopes
        (closedScopes (Traversal.events (before ++ (u.tokens ++ rest)))) kind) : keyword ∉ u.tokens := by
    obtain ⟨ha, howner, hkind⟩ := mem_ownedScopes_iff.mp h
    exact u.owner_not_mem hnumbered ha howner hkind
  have houtside {xs : List Statement} (hxs : ∀ x ∈ xs, x.token ∉ u.tokens) (namespaces : NamespaceScopes) :
      (xs.flatMap (statementListings (before ++ (u.tokens ++ rest)) namespaces)).filter
        (·.declaration.token ∈ u.tokens) = [] := by
    refine List.filter_eq_nil_iff.mpr fun l hl => ?_
    obtain ⟨x, hx, hl⟩ := List.mem_flatMap.mp hl
    obtain ⟨-, clause, rfl⟩ | ⟨-, name, docComment, space, d, rfl⟩ := exists_of_mem_statementListings hl
    · simpa using hxs x hx
    · simpa using hxs x hx
  have hnamespaces : (namespaceListings (before ++ (u.tokens ++ rest))
      (closedScopes (Traversal.events (before ++ (u.tokens ++ rest))))).filter
        (·.declaration.token ∈ u.tokens) = [] := by
    refine List.filter_eq_nil_iff.mpr fun l hl => ?_
    obtain ⟨keyword, a, ha, rfl⟩ := exists_of_mem_namespaceListings hl
    simpa using howned ha
  have hsymbols : (symbolListings (before ++ (u.tokens ++ rest))).filter
      (·.declaration.token ∈ u.tokens) = [] := by
    refine List.filter_eq_nil_iff.mpr fun l hl => ?_
    obtain ⟨kind, -, hl⟩ := List.mem_flatMap.mp hl
    obtain ⟨keyword, a, docComment, ha, -, rfl⟩ := exists_of_mem_scopedListings hl
    simpa using howned ha
  have hkeyword : u.keyword ∈ u.tokens := by
    rw [tokens_eq]
    exact List.mem_cons_self ..
  have hlistings : (u.listings s.scope).filter (·.declaration.token ∈ u.tokens) = u.listings s.scope := by
    refine List.filter_eq_self.mpr fun l hl => ?_
    obtain ⟨c, -, rfl⟩ := List.mem_map.mp hl
    simpa using hkeyword
  rw [streamListings, fileListings, hstatements]
  simp only [List.flatMap_append, List.flatMap_cons, List.filter_append]
  rw [hnamespaces, hsymbols, u.statementListings_eq hnumbered htoken, hlistings,
    houtside fun x hx hmem => hnumbered.not_mem (hearlier x hx) (List.mem_append_left _ hmem),
    houtside fun x hx hmem => ((numbered_append _ _ _).mp hnumbered).2.not_mem hmem (hlater x hx)]
  simp

end ImportItem

/-- An import statement of a file or of a namespace, whatever stands around it. It is one statement of
its stream, and what its tokens declare are its imports in the order of its clauses, and nothing else.
Filing it writes them into the imports of an index and leaves all other declarations. In the index of a
scan they stand side by side, each name with its alias, where the names are distinct and no other
statement imports them. -/
theorem imports_of_statement {before rest : List Token} (u : ImportItem) {scope : Option Scope}
    (hnumbered : Numbered 0 (before ++ (u.tokens ++ rest)))
    (hpassed : .passed u.keyword scope ∈ Traversal.events (before ++ (u.tokens ++ rest)))
    (hlevel : isFileLevel scope = true) (hdistinct : (Table.keys u.entries).Nodup) :
    let tokens := before ++ (u.tokens ++ rest)
    ∃ earlier s later, statements tokens (Traversal.events tokens) = earlier ++ s :: later ∧
      s.token = u.keyword ∧ (∀ x ∈ earlier, x.token ∈ before) ∧ (∀ x ∈ later, x.token ∈ rest) ∧
      (streamListings tokens).filter (·.declaration.token ∈ u.tokens) = u.listings s.scope ∧
      (∀ options namespaces index, ∃ filed,
        (fileStatement options tokens namespaces index s).outcome = .ok filed ∧
          filed.elements .useKind = Table.insertAll (index.elements .useKind) u.entries ∧
          ∀ kind, kind ≠ .useKind → filed.ofKind kind = index.ofKind kind) ∧
      ∀ options index, (scan options tokens).outcome = .ok index →
        (Table.keys (index.elements .useKind)).Nodup ∧
        index.elements .useKind = Table.ofEntries
          ((earlier.flatMap (Statement.imports tokens)).map UseClause.entry ++ u.entries ++
            (later.flatMap (Statement.imports tokens)).map UseClause.entry) ∧
        ((∀ x ∈ earlier ++ later, ∀ c ∈ x.imports tokens, c.name ∉ Table.keys u.entries) →
          ∃ first last, index.elements .useKind = first ++ u.entries ++ last) := by
  intro tokens
  obtain ⟨earlier, s, later, hstatements, htoken, hearlier, hlater⟩ :=
    u.statements_eq hnumbered hpassed hlevel
  refine ⟨earlier, s, later, hstatements, htoken, hearlier, hlater,
    u.filter_streamListings hnumbered htoken hstatements hearlier hlater,
    u.exists_ok_fileStatement hnumbered htoken, fun options index h => ?_⟩
  have helements : index.elements .useKind = Table.ofEntries
      ((earlier.flatMap (Statement.imports tokens)).map UseClause.entry ++ u.entries ++
        (later.flatMap (Statement.imports tokens)).map UseClause.entry) := by
    have hclauses : importClauses tokens = (statements tokens (Traversal.events tokens)).flatMap
        (Statement.imports tokens) := rfl
    have hentries : (u.clauses.toList.map ImportClause.clause).map UseClause.entry = u.entries :=
      List.map_map
    rw [elements_useKind_of_scan h, hclauses, hstatements, List.flatMap_append, List.flatMap_cons,
      u.imports_statement hnumbered htoken, List.map_append, List.map_append, hentries,
      List.append_assoc]
  have hnodup : (Table.keys (index.elements .useKind)).Nodup := by
    rw [helements]
    exact Table.nodup_keys_insertAll (t := []) List.nodup_nil _
  refine ⟨hnodup, helements, fun hothers => ?_⟩
  rw [helements]
  refine Table.exists_ofEntries_block _ _ hdistinct fun e he => ?_
  rw [← List.map_append, ← List.flatMap_append] at he
  obtain ⟨c, hc, rfl⟩ := List.mem_map.mp he
  obtain ⟨x, hx, hc⟩ := List.mem_flatMap.mp hc
  exact hothers x hx c hc

/-- The source `use function \A\b as c,/**/D\Enum;`. -/
def renamedImport : ImportItem where
  keyword := ⟨.useKeyword, "use", 3, 4⟩
  keyword_kind := Eq.refl TokenKind.useKeyword
  word := some (⟨[⟨.whitespace, " ", 3, 5⟩], by decide⟩, ⟨.functionKeyword, "function", 3, 6⟩)
  word_kind := by simp
  clauses := {
    first := {
      before := ⟨[⟨.whitespace, " ", 3, 7⟩], by decide⟩
      lead := [⟨.separator, "\\", 3, 8⟩]
      lead_isNameSeparator := by decide
      name := ⟨⟨.identifier, "A", 3, 9⟩, by decide,
        [(⟨.separator, "\\", 3, 10⟩, ⟨.identifier, "b", 3, 11⟩)], by decide⟩
      after := ⟨[⟨.whitespace, " ", 3, 12⟩], by decide⟩
      renamed := some (⟨.asKeyword, "as", 3, 13⟩, ⟨[⟨.whitespace, " ", 3, 14⟩], by decide⟩,
        ⟨.identifier, "c", 3, 15⟩, ⟨[], Gap.ignorable_nil⟩)
      renamed_isAlias := by decide }
    more := [(⟨.punctuation, ",", 3, 16⟩, {
      before := ⟨[⟨.comment, "/**/", 3, 17⟩], by decide⟩
      lead := []
      lead_isNameSeparator := ImportClause.lead_nil
      name := ⟨⟨.identifier, "D", 3, 18⟩, by decide,
        [(⟨.separator, "\\", 3, 19⟩, ⟨.keyword, "Enum", 3, 20⟩)], by decide⟩
      after := ⟨[], Gap.ignorable_nil⟩
      renamed := none
      renamed_isAlias := ImportClause.renamed_none })]
    comma_isPunct := by decide }
  semicolon := ⟨.punctuation, ";", 3, 21⟩
  semicolon_isPunct := by decide

/-- Of a statement in a namespace, with a block after it that the word does not own, the imports are those
of the two clauses. -/
theorem imports_of_statement_renamedImport :
    let block : List Token := [⟨.punctuation, "\x7b", 4, 22⟩, ⟨.punctuation, "\x7d", 4, 23⟩]
    let tokens := namespaceFront ++ (renamedImport.tokens ++ block)
    (Table.keys renamedImport.entries).Nodup ∧
      (∃ scope, .passed renamedImport.keyword scope ∈ Traversal.events tokens ∧
        isFileLevel scope = true) ∧
      ∃ index, (scan {} tokens).outcome = .ok index ∧
        ∃ first last, index.elements .useKind =
          first ++ [("A\\b", .text "c"), ("D\\Enum", .text "Enum")] ++ last := by
  intro block tokens
  have hnumbered : Numbered 0 (namespaceFront ++ (renamedImport.tokens ++ block)) := by
    repeat' constructor
  have hdistinct : (Table.keys renamedImport.entries).Nodup := by decide +kernel
  obtain ⟨scope, hpassed, hlevel⟩ : ∃ scope,
      .passed renamedImport.keyword scope ∈ Traversal.events tokens ∧ isFileLevel scope = true :=
    ⟨some ⟨1, some ⟨.openTag, "<?php", 1, 0⟩, some ⟨.namespaceKeyword, "namespace", 2, 1⟩, 3, none, true⟩,
      by decide +kernel, by decide⟩
  obtain ⟨index, hindex⟩ : ∃ index, (scan {} tokens).outcome = .ok index :=
    exists_ok_of_isOk (by decide +kernel)
  obtain ⟨earlier, s, later, -, -, hearlier, hlater, -, -, hscan⟩ :=
    imports_of_statement renamedImport hnumbered hpassed hlevel hdistinct
  have hnone {ts : List Token} (hts : ∀ t ∈ ts, t.kind ≠ .useKeyword) {xs : List Statement}
      (hxs : ∀ x ∈ xs, x.token ∈ ts) : ∀ x ∈ xs, x.imports tokens = [] :=
    fun x hx => if_neg (hts x.token (hxs x hx))
  refine ⟨hdistinct, ⟨scope, hpassed, hlevel⟩, index, hindex, (hscan {} index hindex).2.2 ?_⟩
  rw [List.forall_mem_append]
  constructor
  · intro x hx c hc
    rw [hnone (by decide) hearlier x hx] at hc
    cases hc
  · intro x hx c hc
    rw [hnone (by decide) hlater x hx] at hc
    cases hc

end Reflection
