import Reflection.Proofs.Declaration.HtmlBreak
import Reflection.Proofs.Declaration.Members

/-!
# Closing tags in the places of semicolons

A closing tag ends an import. It ends neither a constant nor the statement of a namespace without braces:
both go on behind the open tag. The closing tag, the text outside of the program, the open tag and what
follows it belong to the value of the last constant, up to the next semicolon or comma outside of brackets.
The scope of the namespace opens at the next semicolon.

## Main definitions

* `ConstantItem.continued`: the last constant of a statement that goes on behind an open tag.
* `Traversal.leave`: the scopes that are left when a namespace without braces has ended.

## Main statements

* `ConstantItem.readConst_htmlBreak`: the constants of a statement that goes on.
* `Section.run_htmlBreak`: what a traversal makes of the statement of a namespace that goes on.
* `scan_htmlBreak`: closing tags in the places of semicolons.
-/
namespace Reflection

open Reflection.Text Token

variable {front : List Token}

/-! ## Events after a place between statements -/

namespace BetweenStatements

variable (hfront : BetweenStatements front) {home : Scope} {outer : List Scope}
  {previous : Option TokenKind}

include hfront

/-- What is reported of tokens between statements is reported of the stream. -/
theorem mem_events (hstate : (Traversal.run [] {} front).1 = ⟨home :: outer, none, previous⟩)
    (ts rest : List Token) {e : Event}
    (he : e ∈ (Traversal.run rest ⟨home :: outer, none, previous⟩ ts).2) :
    e ∈ Traversal.events (front ++ (ts ++ rest)) := by
  have hrun : (Traversal.run [] {} (front ++ (ts ++ rest))).2 = (Traversal.run [] {} front).2 ++
      ((Traversal.run rest ⟨home :: outer, none, previous⟩ ts).2 ++
        (Traversal.run [] (Traversal.run rest ⟨home :: outer, none, previous⟩ ts).1 rest).2) := by
    rw [Traversal.run_append, Traversal.run_congr {} hfront.selfContained [] (ts ++ rest ++ []), hstate,
      Traversal.run_append, List.append_nil]
  rw [Traversal.events]
  refine List.mem_append_left _ ?_
  rw [hrun]
  exact List.mem_append_right _ (List.mem_append_left _ he)

/-- The keyword of constants between statements declares the constants that are read after it. -/
theorem exists_constant {keyword : Token} (hkind : keyword.kind = .constKeyword)
    {tokens rest : List Token} (htokens : tokens = front ++ keyword :: rest)
    (hnumbered : Numbered 0 tokens) {d : Declarator}
    (hd : d ∈ (readConst keyword.line (lastLine tokens) rest).items) :
    let space := (spacesOf tokens).nameAt keyword.index
    ∃ l ∈ streamListings tokens, l.declaration.token = keyword ∧
      l.key = (.constKind, Name.join space d.name.text) ∧ l.meaning = .constant space d := by
  intro space
  obtain ⟨home, outer, previous, hstate, hhome, -⟩ := hfront.exists_state
  have hpassed : .passed keyword (some home) ∈ Traversal.events tokens := by
    rw [htokens]
    refine hfront.mem_events hstate [keyword] rest ?_
    rw [Traversal.run_quiet (List.forall_mem_singleton.mpr (Traversal.quiet_of_statement (.inr hkind)))]
    exact List.mem_singleton_self _
  have hkeyword : isStatementKeyword tokens keyword = true := by
    rw [Splice.isStatementKeyword_eq htokens hnumbered, hfront.followsUse_eq, hkind]
    rfl
  have hlevel : isFileLevel (some home) = true := hhome.isFileLevel
  have hpass : (keyword, some home) ∈ statementPasses tokens (Traversal.events tokens) :=
    List.mem_filterMap.mpr ⟨_, hpassed, by simp [hkeyword, hlevel]⟩
  let statement := Pairing.statementAt (closedScopes (Traversal.events tokens)) (keyword, some home)
  have hstatement : statement ∈ statements tokens (Traversal.events tokens) := by
    rw [Splice.statements_eq_map]
    exact List.mem_map.mpr ⟨_, hpass, rfl⟩
  have htoken : statement.token = keyword := rfl
  have hafter : tokensAfter tokens keyword = rest := by
    rw [htokens]
    exact tokensAfter_eq (htokens ▸ hnumbered)
  refine ⟨⟨⟨.constKind, Name.join space d.name.text, statement.scope, keyword,
    docCommentBefore [] (tokensBefore tokens keyword)⟩, .constant space d⟩, ?_, rfl, rfl, rfl⟩
  rw [streamListings_eq, fileListings_eq]
  refine List.mem_append_left _ (List.mem_append_right _ (List.mem_flatMap.mpr ⟨statement, hstatement, ?_⟩))
  rw [statementListings, htoken, if_neg (by simp [hkind]), constListings, htoken, hafter]
  exact List.mem_map.mpr ⟨d, hd, rfl⟩

end BetweenStatements

/-! ## Constants -/

/-- A constant keeps its expression as written. -/
theorem expression_of_define {options : ScanOptions} {index : DeclarationIndex} {l : Listing}
    {space : String} {d : Declarator} (hmeaning : l.meaning = .constant space d) {v : Definition}
    (h : (l.define options index).outcome = .ok v) :
    ∃ k, v = .constant k ∧ k.expression = spelling d.expression := by
  rw [Listing.define, hmeaning, Report.outcome_bind] at h
  obtain ⟨k, hk, hv⟩ := exists_ok_of_bind h
  rw [constantOf, Report.outcome_bind] at hk
  obtain ⟨value, -, hvalue⟩ := exists_ok_of_bind hk
  cases hvalue
  cases hv
  exact ⟨_, rfl, rfl⟩

/-- The index keeps the expression of a constant that is declared once. -/
theorem exists_constant?_of_unique {options : ScanOptions} {tokens : List Token} {index : DeclarationIndex}
    (hindex : (scan options tokens).outcome = .ok index) {l : Listing} (hl : l ∈ streamListings tokens)
    {name space : String} {d : Declarator} (hkey : l.key = (.constKind, name))
    (hunique : ∀ l ∈ streamListings tokens, l.key = (.constKind, name) → l.meaning = .constant space d) :
    ∃ k, index.constant? name = some k ∧ k.expression = spelling d.expression := by
  have hfiled := (outcome_scan_of_completed hindex options).symm.trans hindex
  have hvalue := value?_fileAll (P := fun kind key v => (kind, key) = (.constKind, name) →
      ∃ k, v = .constant k ∧ k.expression = spelling d.expression)
    (fun l hl index v hdefine hkey => expression_of_define (hunique l hl hkey) hdefine)
    (fun kind key v hv => by cases hv) hfiled
  obtain ⟨hkind, hname⟩ := Prod.mk.inj hkey
  have hnames := mem_names_of_mem_streamListings hindex hl
  rw [hkind, hname, DeclarationIndex.mem_names_iff_isSome_value?] at hnames
  obtain ⟨v, hv⟩ := Option.isSome_iff_exists.mp hnames
  obtain ⟨k, rfl, hexpression⟩ := hvalue .constKind name v hv rfl
  exact ⟨k, by rw [DeclarationIndex.constant?, hv], hexpression⟩

namespace ConstantItem

variable (c : ConstantItem) (b : HtmlBreak) (rest : List Token)

/-- The tokens of a constant statement without its semicolon. -/
def unended : List Token := c.keyword :: c.clauses.tokens ConstantClause.tokens

/-- The last constant of a statement that goes on behind an open tag. -/
def continued : Declarator :=
  ⟨c.clauses.last.name,
    significant c.clauses.last.value ++ (b.tokens ++ (takeExpression [] rest).1)⟩

/-- The constants of a statement that goes on, up to the end of the value of its last one. -/
def declared : List Declarator :=
  c.clauses.toList.dropLast.map ConstantClause.declarator ++ [c.continued b rest]

/-- The constants of a statement that goes on are read as such. After a comma further ones are read. -/
theorem readConst_htmlBreak (line lastLine : Int) :
    let after := (takeExpression [] rest).2
    let further :=
      if after.head?.any (·.text == ",") then declarators line lastLine (skipIgnorable after.tail)
      else ⟨[], none⟩
    readConst line lastLine (c.clauses.tokens ConstantClause.tokens ++ (b.tokens ++ rest)) =
      ⟨c.declared b rest ++ further.items, further.fault⟩ := by
  intro after further
  have hlast : declarators line lastLine (skipIgnorable (c.clauses.last.tokens ++ (b.tokens ++ rest))) =
      further.cons (c.continued b rest) := by
    rw [declarators_value, b.takeExpression_tokens]
    by_cases hcomma : after.head?.any (·.text == ",") = true
    · rw [if_pos hcomma]
      simp only [further, if_pos hcomma]
      rfl
    · rw [if_neg hcomma]
      simp only [further, if_neg hcomma]
      rfl
  rw [readConst_afterKeyword, hlast, declared, List.append_assoc]
  rfl

/-- A break in the place of the semicolon belongs to the value of the last constant. -/
theorem exists_continued (hfront : BetweenStatements front)
    (hnumbered : Numbered 0 (front ++ (c.unended ++ (b.tokens ++ rest)))) {d : Declarator}
    (hd : d ∈ c.declared b rest) :
    let tokens := front ++ (c.unended ++ (b.tokens ++ rest))
    let space := (spacesOf tokens).nameAt c.keyword.index
    ∃ l ∈ streamListings tokens, l.declaration.token = c.keyword ∧
      l.key = (.constKind, Name.join space d.name.text) ∧ l.meaning = .constant space d := by
  intro tokens
  have htokens : tokens = front ++
      c.keyword :: (c.clauses.tokens ConstantClause.tokens ++ (b.tokens ++ rest)) := rfl
  refine hfront.exists_constant c.keyword_kind htokens hnumbered ?_
  rw [readConst_htmlBreak]
  exact List.mem_append_left _ hd

end ConstantItem

/-! ## Namespaces -/

namespace Traversal

/-- The scopes that are left when a namespace without braces has ended. -/
def leave (home : Scope) (outer : List Scope) : List Scope :=
  if home.braceless then outer else home :: outer

/-- What is reported when a namespace without braces ends before a position. -/
def leaving (home : Scope) (index : Int) : List Event :=
  if home.braceless then [.closed (home.close (index - 1))] else []

theorem closeBraceless_eq (home : Scope) (outer : List Scope) (pending : Option Token)
    (previous : Option TokenKind) (index : Int) :
    closeBraceless ⟨home :: outer, pending, previous⟩ index =
      (⟨leave home outer, pending, previous⟩, leaving home index) := by
  cases hbraceless : home.braceless <;> simp [closeBraceless, closeScope, leave, leaving, hbraceless]

theorem leave_ne_nil {home : Scope} {outer : List Scope}
    (h : ∃ file ∈ home :: outer, file.braceless = false) : leave home outer ≠ [] := by
  rw [leave]
  split
  · rename_i hbraceless
    obtain ⟨file, hfile, hopen⟩ := h
    rcases List.mem_cons.mp hfile with rfl | houter
    · rw [hopen] at hbraceless
      cases hbraceless
    · exact List.ne_nil_of_mem houter
  · exact List.cons_ne_nil _ _

end Traversal

namespace Section

variable (sec : Section) (b : HtmlBreak) {home : Scope} {outer : List Scope} {semicolon : Token}

/-- The tokens of the statement of a namespace without its end. -/
def unended : List Token := sec.keyword :: sec.beforeOpening

/-- The statement of a namespace waits at a break, and behind it as long as no declaration begins and no
semicolon or brace is passed. -/
theorem run_htmlBreak (hfile : ∃ file ∈ home :: outer, file.braceless = false) {ts : List Token}
    (hts : ∀ t ∈ ts, t.isPlain = true ∨ t.kind = .useKeyword ∨ t.kind = .constKeyword)
    (previous : Option TokenKind) (beyond : List Token) :
    ∃ previous', Traversal.run beyond ⟨home :: outer, none, previous⟩ (sec.unended ++ (b.tokens ++ ts)) =
      (⟨Traversal.leave home outer, some sec.keyword, previous'⟩, Traversal.leaving home sec.keyword.index ++
        (sec.unended ++ (b.tokens ++ ts)).map (.passed · (Traversal.leave home outer).head?)) := by
  have hprocess : Traversal.process ⟨home :: outer, none, previous⟩ sec.keyword
      (sec.beforeOpening ++ (b.tokens ++ ts) ++ beyond) =
        (⟨Traversal.leave home outer, some sec.keyword, previous⟩,
          Traversal.leaving home sec.keyword.index) := by
    have hrelative := Scanned.notRelative_beforeOpening sec b.endsImports_closing.isIgnorable
      (by simp [b.closing_kind]) (b.html ++ [b.opening] ++ ts ++ beyond)
    have hrest : sec.beforeOpening ++ (b.tokens ++ ts) ++ beyond =
        sec.beforeOpening ++ b.closing :: (b.html ++ [b.opening] ++ ts ++ beyond) := by
      simp [HtmlBreak.tokens]
    rw [hrest]
    simp only [Traversal.process, sec.keyword_kind, hrelative, Bool.false_eq_true, if_false,
      Traversal.closeBraceless_eq]
  have hquiet : ∀ t ∈ sec.beforeOpening ++ (b.tokens ++ ts),
      Traversal.Quiet (Traversal.leave home outer) (some sec.keyword) t := by
    have hplain {t : Token} (ht : t.isPlain = true) :
        Traversal.Quiet (Traversal.leave home outer) (some sec.keyword) t :=
      Traversal.quiet_of_isPlain ht (Traversal.leave_ne_nil hfile)
    simp only [List.forall_mem_append]
    refine ⟨fun t ht => hplain (Scanned.isPlain_beforeOpening sec t ht),
      fun t ht => hplain (b.isPlain ht), fun t ht => ?_⟩
    rcases hts t ht with ht | hkind
    · exact hplain ht
    · exact Traversal.quiet_of_statement hkind
  have hsignificant : sec.keyword.isIgnorable = false := by
    simp [isIgnorable, sec.keyword_kind, TokenKind.isIgnorable]
  rw [unended, List.cons_append, Traversal.run_cons, Traversal.step_eq, hprocess]
  simp only [Traversal.note, hsignificant, Bool.false_eq_true, if_false]
  rw [Traversal.run_quiet hquiet]
  refine ⟨_, Prod.ext rfl ?_⟩
  simp [Traversal.current?]

/-- The scope of a namespace that begins at a semicolon behind a break. -/
def scopeAt (semicolon : Token) (outer : List Scope) : Scope where
  level := outer.length
  parent := outer.head?.bind Scope.owner
  owner := some sec.keyword
  first := semicolon.index
  braceless := true

/-- The semicolon opens the scope of the namespace that waits. -/
theorem run_semicolon (hsemicolon : semicolon.isPunct ";" = true) (outer : List Scope)
    (previous : Option TokenKind) (beyond : List Token) :
    Traversal.run beyond ⟨outer, some sec.keyword, previous⟩ [semicolon] =
      (⟨sec.scopeAt semicolon outer :: outer, none, some .punctuation⟩,
        [.opened (sec.scopeAt semicolon outer), .passed semicolon (some (sec.scopeAt semicolon outer))]) := by
  have hprocess (rest : List Token) : Traversal.process ⟨outer, some sec.keyword, previous⟩ semicolon rest =
      (⟨sec.scopeAt semicolon outer :: outer, none, previous⟩, [.opened (sec.scopeAt semicolon outer)]) := by
    rw [Traversal.process_semicolon hsemicolon, Traversal.terminate]
    simp [sec.keyword_kind, Traversal.openScope, Traversal.current?, scopeAt]
  rw [Traversal.run_cons, Traversal.step_eq, hprocess]
  simp [Traversal.note, Traversal.current?, isIgnorable_of_isPunct hsemicolon, kind_of_isPunct hsemicolon]

/-- The name of a namespace ends at a break. -/
theorem declaredName_htmlBreak {rest : List Token}
    (hnumbered : Numbered 0 (front ++ (sec.unended ++ (b.tokens ++ rest)))) :
    declaredName (front ++ (sec.unended ++ (b.tokens ++ rest))) sec.keyword = sec.space := by
  have hends := b.endsImports_closing
  have hafter : tokensAfter (front ++ (sec.unended ++ (b.tokens ++ rest))) sec.keyword =
      sec.beforeOpening ++ b.closing :: (b.html ++ [b.opening] ++ rest) := by
    have htokens : front ++ (sec.unended ++ (b.tokens ++ rest)) =
        front ++ sec.keyword :: (sec.beforeOpening ++ b.closing :: (b.html ++ [b.opening] ++ rest)) := by
      simp [unended, HtmlBreak.tokens]
    rw [htokens] at hnumbered ⊢
    exact tokensAfter_eq hnumbered
  refine declaredName_beforeOpening sec hafter hends.isIgnorable (by simp [isPunct, b.closing_kind]) ?_
  intro u hu
  cases hu
  exact ⟨hends.extendsName, hends.not_namespace⟩

/-- The scope of a namespace that goes on behind a break begins at the next semicolon, and its name is
declared. What stands before that semicolon stands in the scope around the namespace. -/
theorem exists_namespace (hfront : BetweenStatements front)
    (hfile : ∃ file ∈ (Traversal.run [] {} front).1.scopes, file.braceless = false)
    (hsemicolon : semicolon.isPunct ";" = true) {ts rest : List Token}
    (hts : ∀ t ∈ ts, t.isPlain = true ∨ t.kind = .useKeyword ∨ t.kind = .constKeyword)
    (hnumbered : Numbered 0 (front ++ (sec.unended ++ (b.tokens ++ (ts ++ semicolon :: rest))))) :
    let tokens := front ++ (sec.unended ++ (b.tokens ++ (ts ++ semicolon :: rest)))
    (∃ s ∈ closedScopes (Traversal.events tokens), s.owner = some sec.keyword ∧
      s.first = semicolon.index ∧ s.braceless = true ∧
      (sec.space ≠ "" →
        ⟨⟨.namespaceKind, sec.space, s, sec.keyword, ""⟩, .text sec.space⟩ ∈ streamListings tokens)) ∧
    ∀ t ∈ ts, .passed t ((Traversal.run [] {} front).1.closeBraceless sec.keyword.index).1.current? ∈
      Traversal.events tokens := by
  intro tokens
  obtain ⟨home, outer, previous, hstate, hhome, -⟩ := hfront.exists_state
  rw [hstate] at hfile
  have htokens : tokens = front ++ (sec.unended ++ (b.tokens ++ ts) ++ [semicolon] ++ rest) := by
    simp [tokens]
  obtain ⟨previous', hrun⟩ := sec.run_htmlBreak b hfile hts previous ([semicolon] ++ rest)
  have hmem {e : Event} (he : e ∈ (Traversal.run ([semicolon] ++ rest) ⟨home :: outer, none, previous⟩
        (sec.unended ++ (b.tokens ++ ts))).2 ++ (Traversal.run rest
          ⟨Traversal.leave home outer, some sec.keyword, previous'⟩ [semicolon]).2) :
      e ∈ Traversal.events tokens := by
    rw [htokens]
    refine hfront.mem_events hstate _ rest ?_
    rw [Traversal.run_append, hrun]
    rw [hrun] at he
    exact he
  rw [hrun, sec.run_semicolon hsemicolon] at hmem
  constructor
  · have hopened : .opened (sec.scopeAt semicolon (Traversal.leave home outer)) ∈ Traversal.events tokens :=
      hmem (List.mem_append_right _ (List.mem_cons_self ..))
    obtain ⟨htracks, -⟩ := attributed_events hnumbered
    obtain ⟨s, hs, hfirst, hreopen⟩ := htracks.exists_of_opened hopened
    have hclosed := (mem_closedScopes_events hnumbered s).mpr hs
    have howner : s.owner = some sec.keyword := (congrArg Scope.owner hreopen).symm
    refine ⟨s, hclosed, howner, hfirst, (congrArg Scope.braceless hreopen).symm, fun hspace => ?_⟩
    have hname : declaredName tokens sec.keyword = sec.space := sec.declaredName_htmlBreak b hnumbered
    have howned : (sec.keyword, s) ∈ ownedScopes (closedScopes (Traversal.events tokens)) .namespaceKind := by
      refine List.mem_filterMap.mpr ⟨s, hclosed, ?_⟩
      simp [ownerDeclaration?, Scope.ownerKind?, howner, sec.keyword_kind, DeclarationKind.ofOwner?]
    rw [streamListings_eq, fileListings_eq]
    refine List.mem_append_left _ (List.mem_append_left _ (List.mem_filterMap.mpr ⟨_, howned, ?_⟩))
    simp [hname, hspace]
  · intro t ht
    rw [hstate, Traversal.closeBraceless_eq]
    refine hmem ?_
    refine List.mem_append_left _ (List.mem_append_right _ (List.mem_map.mpr ⟨t, ?_, rfl⟩))
    exact List.mem_append_right _ (List.mem_append_right _ ht)

end Section

/-! ## Closing tags -/

/-- A closing tag in the place of a semicolon. It ends an import: the index is the same, if a word for
functions that waits after it waits no more when the next brace opens. It ends no constant: the closing tag,
what stands up to the open tag, and what follows that belong to the value of the last constant, up to the
next semicolon or comma outside of brackets. It ends no statement of a namespace without braces: its scope
begins at the next semicolon. -/
theorem scan_htmlBreak (options : ScanOptions) (b : HtmlBreak) {front : List Token}
    (hfront : BetweenStatements front) :
    (∀ (u : ImportItem) (back back' : List Token),
      Numbered 0 (front ++ (u.tokens ++ back)) → Numbered 0 (front ++ (u.unended ++ (b.tokens ++ back'))) →
      back'.map unplaced = back.map unplaced →
      (u.importHead.function?.isSome = true →
        (Traversal.run [] {} (front ++ u.tokens)).1.NoBraceFirst [] back) →
      ScannedAlike options (front ++ (u.tokens ++ back)) (front ++ (u.unended ++ (b.tokens ++ back')))) ∧
    (∀ (g : GroupImport) (back back' : List Token),
      Numbered 0 (front ++ (g.tokens ++ back)) → Numbered 0 (front ++ (g.unended ++ (b.tokens ++ back'))) →
      back'.map unplaced = back.map unplaced →
      ScannedAlike options (front ++ (g.tokens ++ back)) (front ++ (g.unended ++ (b.tokens ++ back')))) ∧
    (∀ (c : ConstantItem) (rest : List Token),
      let tokens := front ++ (c.unended ++ (b.tokens ++ rest))
      let space := (spacesOf tokens).nameAt c.keyword.index
      Numbered 0 tokens → ∀ d ∈ c.declared b rest,
        let name := Name.join space d.name.text
        (∃ l ∈ streamListings tokens, l.declaration.token = c.keyword ∧ l.key = (.constKind, name) ∧
          l.meaning = .constant space d) ∧
        ∀ index, (scan options tokens).outcome = .ok index →
          name ∈ index.names .constKind ∧
          ((∀ l ∈ streamListings tokens, l.key = (.constKind, name) → l.meaning = .constant space d) →
            ∃ k, index.constant? name = some k ∧ k.expression = spelling d.expression)) ∧
    (∀ (sec : Section) (ts rest : List Token) (semicolon : Token),
      let tokens := front ++ (sec.unended ++ (b.tokens ++ (ts ++ semicolon :: rest)))
      Numbered 0 tokens → semicolon.isPunct ";" = true →
      (∃ file ∈ (Traversal.run [] {} front).1.scopes, file.braceless = false) →
      (∀ t ∈ ts, t.isPlain = true ∨ t.kind = .useKeyword ∨ t.kind = .constKeyword) →
        (∃ s ∈ closedScopes (Traversal.events tokens), s.owner = some sec.keyword ∧
          s.first = semicolon.index ∧ s.braceless = true) ∧
        (∀ t ∈ ts, .passed t ((Traversal.run [] {} front).1.closeBraceless sec.keyword.index).1.current? ∈
          Traversal.events tokens) ∧
        ∀ index, (scan options tokens).outcome = .ok index → sec.space ≠ "" →
          sec.space ∈ index.names .namespaceKind) := by
  refine ⟨fun u back back' hnumbered hnumbered' hback hbrace => ?_,
    fun g back back' hnumbered hnumbered' hback => ?_, fun c rest => ?_, fun sec ts rest semicolon => ?_⟩
  · have htokens : front ++ (u.tokens ++ back) = front ++ u.unended ++ ([u.semicolon] ++ back) := by
      rw [u.tokens_eq_unended]
      simp
    have htokens' : front ++ (u.unended ++ (b.tokens ++ back')) =
        front ++ u.unended ++ (b.tokens ++ back') := (List.append_assoc ..).symm
    rw [htokens] at hnumbered ⊢
    rw [htokens'] at hnumbered' ⊢
    rw [u.tokens_eq_unended] at hbrace
    exact u.isUnended.scannedAlike hfront u.semicolon_isPunct hnumbered hnumbered' hback options hbrace
  · have htokens : front ++ (g.tokens ++ back) = front ++ g.unended ++ ([g.semicolon] ++ back) := by
      simp [GroupImport.tokens]
    have htokens' : front ++ (g.unended ++ (b.tokens ++ back')) =
        front ++ g.unended ++ (b.tokens ++ back') := (List.append_assoc ..).symm
    rw [htokens] at hnumbered ⊢
    rw [htokens'] at hnumbered' ⊢
    refine g.isUnended.scannedAlike hfront g.semicolon_isPunct hnumbered hnumbered' hback options ?_
    intro hfunction
    cases hfunction
  · intro tokens space hnumbered d hd name
    obtain ⟨l, hl, htoken, hkey, hmeaning⟩ := c.exists_continued b rest hfront hnumbered hd
    refine ⟨⟨l, hl, htoken, hkey, hmeaning⟩, fun index hindex => ⟨?_, fun hunique => ?_⟩⟩
    · obtain ⟨hkind, hname⟩ := Prod.mk.inj hkey
      have hnames := mem_names_of_mem_streamListings hindex hl
      rwa [hkind, hname] at hnames
    · exact exists_constant?_of_unique hindex hl hkey hunique
  · intro tokens hnumbered hsemicolon hfile hts
    obtain ⟨⟨s, hs, howner, hfirst, hbraceless, hlisted⟩, hpassed⟩ :=
      sec.exists_namespace b hfront hfile hsemicolon hts hnumbered
    exact ⟨⟨s, hs, howner, hfirst, hbraceless⟩, hpassed, fun index hindex hspace =>
      mem_names_of_mem_streamListings hindex (hlisted hspace)⟩

/-! ## A paragraph between two statements -/

/-- The source `<?php`. -/
def openFront : List Token := [⟨.openTag, "<?php", 1, 0⟩]

/-- A statement may follow the open tag. -/
theorem betweenStatements_openFront : BetweenStatements openFront := by
  let p : Program := ⟨⟨.openTag, "<?php", 1, 0⟩, rfl, .ofItems [], []⟩
  have hitems : p.block.items = [] ++ [] := rfl
  have hplace : p.Place openFront := .block hitems
  exact (hplace.betweenStatements (by repeat' constructor) (by decide)).1

/-- The source `?><p><?php` after five tokens. -/
def paragraph : HtmlBreak where
  closing := ⟨.closeTag, "?>", 2, 6⟩
  closing_kind := rfl
  html := [⟨.inlineHtml, "<p>", 3, 7⟩]
  html_kind := by decide
  opening := ⟨.openTag, "<?php", 4, 8⟩
  opening_kind := rfl
  opening_text := by decide

/-- White space at a position. -/
def blank (index : Int) : Token := ⟨.whitespace, " ", 2, index⟩

/-- The source `const B=2;` from a position on. -/
def laterConstant (first : Int) : List Token :=
  [⟨.constKeyword, "const", 5, first⟩, ⟨.identifier, "B", 5, first + 1⟩, ⟨.punctuation, "=", 5, first + 2⟩,
    ⟨.numberLiteral, "2", 5, first + 3⟩, ⟨.punctuation, ";", 5, first + 4⟩]

/-- The source `{}` from a position on. -/
def laterBraces (first : Int) : List Token :=
  [⟨.punctuation, "\x7b", 5, first⟩, ⟨.punctuation, "\x7d", 5, first + 1⟩]

/-- The source `const A=1 ;`. -/
def earlierConstant : ConstantItem where
  keyword := ⟨.constKeyword, "const", 2, 1⟩
  keyword_kind := rfl
  clauses :=
    { first :=
        { before := []
          before_isPlain := ConstantClause.before_nil
          name := ⟨.identifier, "A", 2, 2⟩
          name_isIdentifier := by decide
          after := ⟨[], Gap.ignorable_nil⟩
          equals := ⟨.punctuation, "=", 2, 3⟩
          equals_isPunct := by decide
          value := [⟨.numberLiteral, "1", 2, 4⟩, blank 5]
          value_isPlain := by decide
          value_bracketed := .other (by decide) (by decide) (.other (by decide) (by decide) (.nil true)) }
      more := []
      comma_isPunct := Parts.comma_nil }
  semicolon := ⟨.punctuation, ";", 2, 6⟩
  semicolon_isPunct := by decide

/-- The source `use function P;`. -/
def functionImport : ImportItem where
  keyword := ⟨.useKeyword, "use", 2, 1⟩
  keyword_kind := rfl
  word := some (⟨[blank 2], by decide⟩, ⟨.functionKeyword, "function", 2, 3⟩)
  word_kind := by simp
  clauses :=
    { first :=
        { before := ⟨[blank 4], by decide⟩
          lead := []
          lead_isNameSeparator := ImportClause.lead_nil
          name := ⟨⟨.identifier, "P", 2, 5⟩, by decide, [], QualifiedName.tail_nil⟩
          after := ⟨[], Gap.ignorable_nil⟩
          renamed := none
          renamed_isAlias := ImportClause.renamed_none }
      more := []
      comma_isPunct := Parts.comma_nil }
  semicolon := ⟨.punctuation, ";", 2, 6⟩
  semicolon_isPunct := by decide

/-- The source `namespace N  ;`. -/
def namespaceSection : Section where
  keyword := ⟨.namespaceKeyword, "namespace", 2, 1⟩
  keyword_kind := Eq.refl TokenKind.namespaceKeyword
  before := ⟨[blank 2], by decide⟩
  name := some ⟨⟨.identifier, "N", 2, 3⟩, by decide, [], QualifiedName.tail_nil⟩
  after := ⟨[blank 4, blank 5], by decide⟩
  opening := ⟨.punctuation, ";", 2, 6⟩
  block := ⟨[], ⟨[], Gap.ignorable_nil⟩⟩
  closing := none
  opening_isPunct := by decide
  closing_isPunct := Section.closing_none

/-- The constants of an index with their expressions. -/
def DeclarationIndex.expressions (index : DeclarationIndex) : List (String × String) :=
  (index.elements .constKind).filterMap fun
    | (name, .constant k) => some (name, k.expression)
    | _ => none

/-- Streams that are scanned alike have the same constants. -/
theorem ScannedAlike.expressions {options : ScanOptions} {tokens tokens' : List Token}
    (h : ScannedAlike options tokens tokens') (shown shown' : List (String × String))
    (hshown : (scan options tokens).outcome.map DeclarationIndex.expressions = .ok shown)
    (hshown' : (scan options tokens').outcome.map DeclarationIndex.expressions = .ok shown') :
    shown' = shown := by
  cases hindex : (scan options tokens).outcome with
  | error fault =>
    rw [hindex] at hshown
    cases hshown
  | ok index =>
    cases hindex' : (scan options tokens').outcome with
    | error fault =>
      rw [hindex'] at hshown'
      cases hshown'
    | ok index' =>
      rw [hindex] at hshown
      rw [hindex'] at hshown'
      cases hshown
      cases hshown'
      rw [DeclarationIndex.expressions, h.2 index index' hindex hindex', ← DeclarationIndex.expressions]

/-- A function that is imported before a block is declared where a paragraph stands between them. -/
theorem symbolListings_functionImport :
    (symbolListings (openFront ++ (functionImport.tokens ++ laterBraces 7))).map Listing.key = [] ∧
    (symbolListings (openFront ++ (functionImport.unended ++ (paragraph.tokens ++ laterBraces 9)))).map
      Listing.key = [(.functionKind, "P")] := by
  decide +kernel

/-- The import has no fault. -/
theorem exists_ok_functionImport :
    ∃ index, (scan {} (openFront ++ (functionImport.tokens ++ laterBraces 7))).outcome = .ok index := by
  refine exists_ok_scan rfl (fun kind name => ⟨_, rfl⟩) fun s hs => ?_
  have hkeyword : (statements (openFront ++ (functionImport.tokens ++ laterBraces 7))
      (Traversal.events (openFront ++ (functionImport.tokens ++ laterBraces 7)))).map Statement.token =
        [functionImport.keyword] := by decide +kernel
  have htoken : s.token = functionImport.keyword :=
    List.mem_singleton.mp (hkeyword ▸ List.mem_map.mpr ⟨s, hs, rfl⟩)
  have hafter : tokensAfter (openFront ++ (functionImport.tokens ++ laterBraces 7)) functionImport.keyword =
      functionImport.tokens.tail ++ laterBraces 7 := rfl
  rw [statementFault?, htoken, if_pos functionImport.keyword_kind, hafter, readUse_eq]

/-- The constant that goes on behind the paragraph is the only one of its name. -/
theorem meaning_earlierConstant : ∀ l ∈ streamListings (openFront ++ (earlierConstant.unended ++
    (paragraph.tokens ++ laterConstant 9))), l.key = (.constKind, "A") →
      l.meaning = .constant "" (earlierConstant.continued paragraph (laterConstant 9)) := by
  have hlistings : (streamListings (openFront ++ (earlierConstant.unended ++
      (paragraph.tokens ++ laterConstant 9)))).map (fun l => (l.key, l.meaning)) =
        [((.constKind, "A"), .constant "" (earlierConstant.continued paragraph (laterConstant 9))),
          ((.constKind, "B"), .constant "" ⟨⟨.identifier, "B", 5, 10⟩, [⟨.numberLiteral, "2", 5, 12⟩]⟩)] := by
    cbv
  intro l hl hkey
  have hlisted : (l.key, l.meaning) ∈ _ := hlistings ▸ List.mem_map.mpr ⟨l, hl, rfl⟩
  rw [hkey, List.mem_pair] at hlisted
  rcases hlisted with hlisted | hlisted
  · exact (Prod.mk.inj hlisted).2
  · simp at hlisted

/-- The import of a function ends at the paragraph. The constant and the namespace go on behind it. -/
theorem scan_htmlBreak_paragraph : BetweenStatements openFront ∧
    ScannedAlike {} (openFront ++ (functionImport.tokens ++ laterConstant 7))
      (openFront ++ (functionImport.unended ++ (paragraph.tokens ++ laterConstant 9))) ∧
    (∃ index, (scan {} (openFront ++ (earlierConstant.unended ++ (paragraph.tokens ++ laterConstant 9)))).outcome =
        .ok index ∧
      ∃ k, index.constant? "A" = some k ∧ k.expression = "1?><p><?phpconstB=2") ∧
    ∃ index, (scan {} (openFront ++ (namespaceSection.unended ++
        (paragraph.tokens ++ ([] ++ ⟨.punctuation, ";", 5, 9⟩ :: []))))).outcome = .ok index ∧
      "N" ∈ index.names .namespaceKind := by
  obtain ⟨himports, -, hconstants, hnamespaces⟩ := scan_htmlBreak {} paragraph betweenStatements_openFront
  refine ⟨betweenStatements_openFront, ?_, ?_, ?_⟩
  · exact himports functionImport (laterConstant 7) (laterConstant 9) (by repeat' constructor)
      (by repeat' constructor) rfl (fun _ => by decide)
  · obtain ⟨index, hindex⟩ : ∃ index, (scan {} (openFront ++
        (earlierConstant.unended ++ (paragraph.tokens ++ laterConstant 9)))).outcome = .ok index :=
      exists_ok_of_isOk (by cbv)
    obtain ⟨-, hkept⟩ := hconstants earlierConstant (laterConstant 9) (by repeat' constructor)
      (earlierConstant.continued paragraph (laterConstant 9)) (List.mem_singleton_self _)
    have hspace : (spacesOf (openFront ++ (earlierConstant.unended ++
        (paragraph.tokens ++ laterConstant 9)))).nameAt earlierConstant.keyword.index = "" := by
      decide +kernel
    rw [hspace] at hkept
    obtain ⟨k, hk, hexpression⟩ := (hkept index hindex).2 meaning_earlierConstant
    exact ⟨index, hindex, k, hk, hexpression.trans (by decide +kernel)⟩
  · obtain ⟨index, hindex⟩ : ∃ index, (scan {} (openFront ++ (namespaceSection.unended ++
        (paragraph.tokens ++ ([] ++ ⟨.punctuation, ";", 5, 9⟩ :: []))))).outcome = .ok index :=
      exists_ok_of_isOk (by cbv)
    obtain ⟨-, -, hdeclared⟩ := hnamespaces namespaceSection [] [] ⟨.punctuation, ";", 5, 9⟩
      (by repeat' constructor) (by decide) (by decide) (by decide)
    exact ⟨index, hindex, hdeclared index hindex (by decide +kernel)⟩

/-- A paragraph in the place of a semicolon does not always leave the index as it is. The expression of a
constant goes on behind it, and the scope of a namespace begins behind it. A block behind the import of a
function belongs to this function. -/
theorem not_scannedAlike_paragraph :
    ¬ScannedAlike {} (openFront ++ (earlierConstant.tokens ++ laterConstant 7))
      (openFront ++ (earlierConstant.unended ++ (paragraph.tokens ++ laterConstant 9))) ∧
    ¬ScannedAlike {} (openFront ++ (namespaceSection.head ++ laterConstant 7))
      (openFront ++ (namespaceSection.unended ++ (paragraph.tokens ++ laterConstant 9))) ∧
    ¬ScannedAlike {} (openFront ++ (functionImport.tokens ++ laterBraces 7))
      (openFront ++ (functionImport.unended ++ (paragraph.tokens ++ laterBraces 9))) := by
  refine ⟨fun h => ?_, fun h => ?_, fun h => ?_⟩
  · have hsame := h.expressions [("A", "1"), ("B", "2")]
      [("A", "1?><p><?phpconstB=2"), ("B", "2")] (by cbv) (by cbv)
    simp at hsame
  · have hsame := h.expressions [("N\\B", "2")] [("B", "2")] (by cbv) (by cbv)
    simp at hsame
  · obtain ⟨hnone, hone⟩ := symbolListings_functionImport
    obtain ⟨index, hindex⟩ := exists_ok_functionImport
    obtain ⟨index', hindex'⟩ := h.1.mp ⟨index, hindex⟩
    have hdeclared : "P" ∈ index'.names .functionKind :=
      (mem_names_scopedKinds_iff hindex' (by decide)).mpr (hone ▸ List.mem_singleton_self _)
    rw [h.names hindex hindex', mem_names_scopedKinds_iff hindex (by decide), hnone] at hdeclared
    exact absurd hdeclared List.not_mem_nil

end Reflection
