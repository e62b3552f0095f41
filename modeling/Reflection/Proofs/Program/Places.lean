import Reflection.Proofs.Program.Events

/-!
# Where the parts of a program stand

A scan finds the scopes and the statement keywords of a program. Its items lie in the scopes of
different namespaces, which do not overlap, so every item is found in its own.

## Main statements

* `Program.events_spec`, `Program.statements_events`: the scopes and statements of a program.
* `Program.nameAt_block`, `Program.nameAt_section`: the namespace of a position.
* `Program.exists_place`: the tokens before and after an item, and its namespace.
-/
namespace Reflection

open Token

/-! ## Events of a whole traversal -/

/-- Position of the last token of a stream that is numbered from zero. -/
theorem lastIndex_eq {tokens : List Token} (hnumbered : Numbered 0 tokens) :
    (tokens.getLast?.map Token.index).getD (-1) = (tokens.length : Int) - 1 := by
  rcases List.eq_nil_or_concat tokens with rfl | ⟨front, t, rfl⟩
  · rfl
  · rw [List.concat_eq_append] at hnumbered ⊢
    rw [List.getLast?_concat, Option.map_some, Option.getD_some, index_eq_length hnumbered,
      List.length_append, List.length_singleton]
    omega

/-- The events of a stream that is numbered from zero nest. -/
theorem wellNested_events {tokens : List Token} (hnumbered : Numbered 0 tokens) :
    WellNested 0 tokens.length (Traversal.events tokens) := by
  obtain ⟨scopes, hrun⟩ := (Tracks.start 0 0).run (s := {}) [] (Int.le_refl 0) hnumbered
  rw [Int.zero_add, List.nil_append] at hrun
  obtain ⟨scopes', hfinish⟩ := hrun.finish (Int.le_refl _)
  have hevents : Traversal.events tokens = (Traversal.run [] {} tokens).2 ++
      (Traversal.run [] {} tokens).1.scopes.map
        fun s => .closed (s.close ((tokens.length : Int) - 1)) := by
    rw [← lastIndex_eq hnumbered]
    rfl
  rw [hevents]
  exact hfinish.wellNested

/-- A scope that has closed is the closed form of the scope that opened. -/
theorem closedForm_reopen {tokens : List Token} (hnumbered : Numbered 0 tokens) {c : Scope}
    (hc : c ∈ closedScopes (Traversal.events tokens)) :
    closedForm (closedScopes (Traversal.events tokens)) c.reopen = c := by
  have hmem : ∀ d ∈ closedScopes (Traversal.events tokens), d.first = c.first →
      Event.closed d ∈ eventsOfScope c.first (Traversal.events tokens) := by
    intro d hd hfirst
    obtain ⟨e, he, hd⟩ := List.mem_filterMap.mp hd
    cases e <;> cases hd
    exact List.mem_filter.mpr ⟨he, by simp [Event.scopeFirst?, hfirst]⟩
  have hunique : ∀ d ∈ closedScopes (Traversal.events tokens), d.first = c.first → d = c := by
    intro d hd hfirst
    have hdmem := hmem d hd hfirst
    have hcmem := hmem c hc rfl
    rcases (wellNested_events hnumbered).paired c.first with hnil | ⟨s, last, hpair⟩
    · rw [hnil] at hcmem
      cases hcmem
    · rw [hpair] at hdmem hcmem
      simp only [List.mem_cons, reduceCtorEq, Event.closed.injEq, List.not_mem_nil, or_false,
        false_or] at hdmem hcmem
      rw [hdmem, hcmem]
  have hsome : ((closedScopes (Traversal.events tokens)).find? (·.first == c.reopen.first)).isSome :=
    List.find?_isSome.mpr ⟨c, hc, by simp [Scope.reopen]⟩
  obtain ⟨d, hd⟩ := Option.isSome_iff_exists.mp hsome
  have hfirst : d.first = c.first := by simpa [Scope.reopen] using List.find?_some hd
  rw [closedForm, hd, Option.getD_some]
  exact hunique d (List.mem_of_find?_eq_some hd) hfirst

/-- The statements of a file are the keywords that were passed, in their scopes as these closed. -/
theorem statements_eq (tokens : List Token) (events : List Event) :
    statements tokens events = (statementPasses tokens events).map fun pass =>
      ⟨pass.1, (pass.2.map (closedForm (closedScopes events))).getD {}⟩ := by
  rw [statements, statementPasses, List.map_filterMap]
  refine congrArg (fun f => List.filterMap f events) (funext fun e => ?_)
  cases e with
  | passed t scope => simp only []; split <;> rfl
  | _ => rfl

/-! ## Events of a program -/

/-- The statement of an item that is one. -/
def Placed.statements (x : Placed) : List Statement :=
  match x.item with
  | .braced _ => []
  | .imports u => [⟨u.keyword, x.home⟩]
  | .constants c => [⟨c.keyword, x.home⟩]

namespace Program

variable (p : Program)

/-- What the events of a program hold. -/
theorem events_spec (hnumbered : Numbered 0 p.tokens) :
    listedScopes (Traversal.events p.tokens) = p.listed ∧
      statementPasses p.tokens (Traversal.events p.tokens) = p.placed.flatMap Placed.passes ∧
      (Traversal.events p.tokens).filterMap Event.warning? = [] ∧
      p.scope ∈ closedScopes (Traversal.events p.tokens) := by
  have hfile : p.scope.reopen.close ((p.tokens.length : Int) - 1) = p.scope := by
    have hlast := p.last_scope hnumbered
    simp only [scope, Scope.reopen, Scope.close] at hlast ⊢
    rw [hlast]
  have hunlisted : p.scope.isListed = false := by
    simp [Scope.isListed, ownerDeclaration?, scope, Scope.ownerKind?, p.openTag_kind,
      DeclarationKind.ofOwner?]
  have hevents : ∀ {s events}, Traversal.run [] {} p.tokens = (s, events) →
      Traversal.events p.tokens = events ++ s.finish ((p.tokens.length : Int) - 1) := by
    intro s events hrun
    rw [Traversal.events, hrun, lastIndex_eq hnumbered]
  have hrest : ∀ {rest : List Token}, p.tokens = p.tokens ++ rest → rest = [] := fun h =>
    List.append_right_eq_self.mp h.symm
  obtain ⟨s, ⟨⟨rest, events, htokens, hrun, hlisted, hpasses, hwarnings⟩, hidle⟩ |
    ⟨last, before, hbefore, ⟨rest, events, htokens, hrun, hlisted, hpasses, hwarnings⟩, hidle, -,
      hlastListed, hlast⟩⟩ := p.between hnumbered
  · rw [hrest htokens] at hrun
    have hfinish : s.finish ((p.tokens.length : Int) - 1) = [.closed p.scope] := by
      rw [Traversal.finish, hidle.scopes, List.map_singleton, hfile]
    rw [hevents hrun, hfinish]
    refine ⟨?_, ?_, ?_, ?_⟩
    · rw [listedScopes_append, hlisted]
      simp [listedScopes, closedScopes, hunlisted]
    · rw [statementPasses_append, hpasses]
      simp [statementPasses]
    · simp [hwarnings, Event.warning?]
    · simp [closedScopes]
  · rw [hrest htokens] at hrun
    have hclose : last.reopen.close ((p.tokens.length : Int) - 1) = last := by
      rw [Scope.close, Scope.reopen, ← hlast]
    have hfinish : s.finish ((p.tokens.length : Int) - 1) = [.closed last, .closed p.scope] := by
      rw [Traversal.finish, hidle.scopes, List.map_cons, List.map_singleton, hclose, hfile]
    rw [hevents hrun, hfinish]
    refine ⟨?_, ?_, ?_, ?_⟩
    · rw [listedScopes_append, hlisted, hbefore]
      simp [listedScopes, closedScopes, hunlisted, hlastListed]
    · rw [statementPasses_append, hpasses]
      simp [statementPasses]
    · simp [hwarnings, Event.warning?]
    · simp [closedScopes]

/-- The scope around an item is that of the file or of a section. -/
theorem home_placed {x : Placed} (hx : x ∈ p.placed) :
    x.home = p.scope ∨ ∃ sec ∈ p.sections, x.home = sec.scope p.openTag := by
  rcases List.mem_append.mp hx with hx | hx
  · obtain ⟨entry, -, rfl⟩ := List.mem_map.mp hx
    exact .inl rfl
  · obtain ⟨sec, hsec, hx⟩ := List.mem_flatMap.mp hx
    obtain ⟨entry, -, rfl⟩ := List.mem_map.mp hx
    exact .inr ⟨sec, hsec, rfl⟩

/-- The statements of a program are those of its items. -/
theorem statements_events (hnumbered : Numbered 0 p.tokens) :
    Reflection.statements p.tokens (Traversal.events p.tokens) =
      p.placed.flatMap Placed.statements := by
  obtain ⟨hlisted, hpasses, -, hfile⟩ := p.events_spec hnumbered
  have hclosed : ∀ x ∈ p.placed, x.home ∈ closedScopes (Traversal.events p.tokens) := by
    intro x hx
    rcases p.home_placed hx with hhome | ⟨sec, hsec, hhome⟩
    · rw [hhome]
      exact hfile
    · have hmem : sec.scope p.openTag ∈ listedScopes (Traversal.events p.tokens) := by
        rw [hlisted]
        refine List.mem_append_right _ (List.mem_flatMap.mpr ⟨sec, hsec, ?_⟩)
        exact List.mem_append_right _ (List.mem_singleton_self _)
      rw [hhome]
      exact (List.mem_filter.mp hmem).1
  rw [statements_eq, hpasses, List.map_flatMap, List.flatMap_def, List.flatMap_def]
  refine congrArg List.flatten (List.map_congr_left fun x hx => ?_)
  have hform := closedForm_reopen hnumbered (hclosed x hx)
  simp only [Placed.passes, Placed.statements]
  cases x.item with
  | braced b => rfl
  | imports u => simp [hform]
  | constants c => simp [hform]

end Program

/-! ## Owners of scopes -/

/-- The scope of a function or structure of a kind, with its keyword. -/
def Placed.owned (kind : DeclarationKind) (x : Placed) : Option (Token × Scope) :=
  match x.item with
  | .braced b => if b.kind = kind then some (b.keyword, b.scope x.home) else none
  | _ => none

theorem ownedScopes_append (xs ys : List Scope) (kind : DeclarationKind) :
    ownedScopes (xs ++ ys) kind = ownedScopes xs kind ++ ownedScopes ys kind :=
  List.filterMap_append

/-- Of the scopes that belong to declarations, only methods are not listed. -/
theorem ownedScopes_filter {kind : DeclarationKind} (hkind : kind ≠ .functionKind)
    (closed : List Scope) :
    ownedScopes (closed.filter Scope.isListed) kind = ownedScopes closed kind := by
  induction closed with
  | nil => rfl
  | cons s closed ih =>
    by_cases hlisted : s.isListed = true
    · rw [List.filter_cons_of_pos hlisted, ownedScopes, ownedScopes, List.filterMap_cons,
        List.filterMap_cons]
      rw [ownedScopes, ownedScopes] at ih
      rw [ih]
    · have hnone : ¬ ownerDeclaration? s = some kind := by
        intro howner
        have hfunction : s.ownerKind? = some .functionKeyword := by
          simp only [Scope.isListed, howner, Option.isSome_some, Bool.true_and, Bool.not_eq_true,
            Bool.not_eq_false', Bool.and_eq_true, beq_iff_eq] at hlisted
          exact hlisted.1
        rw [ownerDeclaration?, hfunction] at howner
        exact hkind (Option.some.inj howner).symm
      rw [List.filter_cons_of_neg hlisted, ih, ownedScopes, ownedScopes, List.filterMap_cons,
        if_neg hnone]

theorem ownedScopes_singleton {s : Scope} {t : Token} {owner : DeclarationKind}
    (howner : ownerDeclaration? s = some owner) (ht : s.owner = some t) (kind : DeclarationKind) :
    ownedScopes [s] kind = if owner = kind then [(t, s)] else [] := by
  rw [ownedScopes, List.filterMap_cons, List.filterMap_nil, howner, ht]
  by_cases hkind : owner = kind
  · simp [hkind]
  · simp [hkind]

/-- The scopes of items belong to their functions and structures. -/
theorem ownedScopes_placed (kind : DeclarationKind) (placed : List Placed) :
    ownedScopes (placed.flatMap Placed.scopes) kind = placed.filterMap (Placed.owned kind) := by
  induction placed with
  | nil => rfl
  | cons x placed ih =>
    rw [List.flatMap_cons, ownedScopes_append, ih, List.filterMap_cons]
    simp only [Placed.scopes, Placed.owned]
    cases x.item with
    | braced b =>
      have howner : ownerDeclaration? (b.scope x.home) = some b.kind := b.ofOwner?_keyword
      simp only [ownedScopes_singleton howner (rfl : (b.scope x.home).owner = some b.keyword)]
      by_cases hkind : b.kind = kind
      · simp [hkind]
      · simp [hkind]
    | _ => rfl

theorem owned_namespaceKind (x : Placed) : x.owned .namespaceKind = none := by
  simp only [Placed.owned]
  cases x.item with
  | braced b => simp [b.kind_ne]
  | _ => rfl

namespace Program

variable (p : Program)

theorem ownedScopes_section (tag : Token) (sec : Section) (kind : DeclarationKind) :
    ownedScopes [sec.scope tag] kind =
      if .namespaceKind = kind then [(sec.keyword, sec.scope tag)] else [] := by
  have howner : ownerDeclaration? (sec.scope tag) = some .namespaceKind := by
    simp [ownerDeclaration?, Section.scope, Scope.ownerKind?, sec.keyword_kind,
      DeclarationKind.ofOwner?]
  exact ownedScopes_singleton howner rfl kind

/-- The namespaces of a program are its sections. -/
theorem ownedScopes_namespaceKind :
    ownedScopes p.listed .namespaceKind =
      p.sections.map fun sec => (sec.keyword, sec.scope p.openTag) := by
  have hitems (placed : List Placed) :
      ownedScopes (placed.flatMap Placed.scopes) .namespaceKind = [] := by
    rw [ownedScopes_placed, List.filterMap_eq_nil_iff]
    exact fun x _ => owned_namespaceKind x
  rw [listed, ownedScopes_append, hitems, List.nil_append]
  induction p.sections with
  | nil => rfl
  | cons sec sections ih =>
    rw [List.flatMap_cons, ownedScopes_append, ih, Scanned.sectionScopes, ownedScopes_append, hitems,
      ownedScopes_section]
    rfl

/-- The functions and structures of a program are its items. -/
theorem ownedScopes_of_ne {kind : DeclarationKind} (hkind : kind ≠ .namespaceKind) :
    ownedScopes p.listed kind = p.placed.filterMap (Placed.owned kind) := by
  rw [listed, placed, ownedScopes_append, ownedScopes_placed, List.filterMap_append]
  refine congrArg _ ?_
  induction p.sections with
  | nil => rfl
  | cons sec sections ih =>
    rw [List.flatMap_cons, ownedScopes_append, ih, Scanned.sectionScopes, ownedScopes_append,
      ownedScopes_placed, ownedScopes_section, if_neg (Ne.symm hkind), List.append_nil,
      List.flatMap_cons, List.filterMap_append]

end Program

/-! ## Positions -/

/-- Of two stretches of a stream, the positions of the one that comes first are smaller. -/
theorem index_mem {front ts back : List Token} (hnumbered : Numbered 0 (front ++ (ts ++ back)))
    {t : Token} (ht : t ∈ ts) :
    (front.length : Int) ≤ t.index ∧ t.index < front.length + ts.length := by
  have hts := ((numbered_append _ ts back).mp ((numbered_append 0 front (ts ++ back)).mp hnumbered).2).1
  have hindex := hts.index_mem ht
  omega

section

variable {front back : List Token} {sec : Section}
  (hnumbered : Numbered 0 (front ++ (sec.tokens ++ back)))

include hnumbered

/-- The block of a section stands right behind its opening token. -/
theorem index_opening_block : sec.opening.index = (front.length : Int) + sec.head.length - 1 ∧
    ∀ t ∈ sec.block.tokens, sec.opening.index < t.index ∧
      t.index ≤ sec.opening.index + sec.block.tokens.length := by
  have hsplit : front ++ (sec.tokens ++ back) = front ++ (sec.head ++ (sec.block.tokens ++
      ((sec.closing.map fun ending => ending.1 :: ending.2.tokens).getD [] ++ back))) := by
    simp [Section.tokens]
  rw [hsplit] at hnumbered
  have hopening : sec.opening.index = (front.length : Int) + sec.head.length - 1 := by
    rw [Scanned.index_opening hnumbered, List.length_append]
    omega
  rw [← List.append_assoc front] at hnumbered
  refine ⟨hopening, fun t ht => ?_⟩
  have hindex := index_mem hnumbered ht
  rw [List.length_append] at hindex
  omega

/-- The closing brace of a section stands right behind its block. -/
theorem index_closing_block {ending : Token × Gap} (hclosing : sec.closing = some ending) :
    ending.1.index = sec.opening.index + sec.block.tokens.length + 1 := by
  have hopening := (index_opening_block hnumbered).1
  have hsplit : front ++ (sec.tokens ++ back) = (front ++ sec.head ++ sec.block.tokens) ++
      ending.1 :: (ending.2.tokens ++ back) := by
    simp [Section.tokens, hclosing]
  rw [hsplit] at hnumbered
  rw [index_eq_length hnumbered]
  simp only [List.length_append]
  omega

/-- A section lies between its first and its last token, and its block lies inside of its scope. -/
theorem section_bounds (tag : Token) :
    ∃ last, (sec.scope tag).last = some last ∧ (front.length : Int) ≤ (sec.scope tag).first ∧
      last < front.length + sec.tokens.length ∧
      ∀ t ∈ sec.block.tokens, (sec.scope tag).first ≤ t.index ∧ t.index ≤ last := by
  obtain ⟨hopening, hblock⟩ := index_opening_block hnumbered
  have hhead : 1 ≤ sec.head.length := by simp [Section.head]
  have hfirst : (sec.scope tag).first = sec.opening.index := rfl
  cases hclosing : sec.closing with
  | none =>
    have hlength : sec.tokens.length = sec.head.length + sec.block.tokens.length := by
      simp [Section.tokens, hclosing]
    refine ⟨sec.opening.index + sec.block.tokens.length, by simp [Section.scope, hclosing], ?_, ?_, ?_⟩
    · omega
    · omega
    · intro t ht
      have hindex := hblock t ht
      omega
  | some ending =>
    have hend := index_closing_block hnumbered hclosing
    have hlength : sec.tokens.length =
        sec.head.length + (sec.block.tokens.length + (ending.2.tokens.length + 1)) := by
      simp [Section.tokens, hclosing]
    refine ⟨ending.1.index, by simp [Section.scope, hclosing], ?_, ?_, ?_⟩
    · omega
    · omega
    · intro t ht
      have hindex := hblock t ht
      omega

end

/-! ## Namespaces of positions -/

theorem foldl_innermost {index : Int} {namespaces : NamespaceScopes}
    (h : ∀ e ∈ namespaces, e.1.contains index = false) (found : Option (Scope × String)) :
    namespaces.foldl (innermost index) found = found := by
  induction namespaces generalizing found with
  | nil => rfl
  | cons e namespaces ih =>
    have hskip : innermost index found e = found := by
      simp [innermost, h e (List.mem_cons_self ..)]
    rw [List.foldl_cons, hskip]
    exact ih (fun other hother => h other (List.mem_cons_of_mem e hother)) found

/-- A position in one namespace only belongs to it. -/
theorem nameAt_of_contains {index : Int} {before after : NamespaceScopes} {e : Scope × String}
    (hbefore : ∀ other ∈ before, other.1.contains index = false) (he : e.1.contains index = true)
    (hafter : ∀ other ∈ after, other.1.contains index = false) :
    NamespaceScopes.nameAt (before ++ e :: after) index = e.2 := by
  have hfound : innermost index none e = some e := by simp [innermost, he]
  rw [NamespaceScopes.nameAt, List.foldl_append, foldl_innermost hbefore, List.foldl_cons, hfound,
    foldl_innermost hafter]
  rfl

theorem contains_eq_false_of_lt_first {s : Scope} {index : Int} (h : index < s.first) :
    s.contains index = false := by
  simp [Scope.contains]
  omega

theorem contains_eq_false_of_last_lt {s : Scope} {index last : Int} (hlast : s.last = some last)
    (h : last < index) : s.contains index = false := by
  simp [Scope.contains, hlast, h]

namespace Program

variable (p : Program)

/-- The namespaces of a program with their names. -/
def namespaces : NamespaceScopes :=
  p.sections.map fun sec => (sec.scope p.openTag, sec.space)

/-- The tokens of a program around a section. -/
theorem tokens_section {before after : List Section} {sec : Section}
    (hsections : p.sections = before ++ sec :: after) :
    p.tokens = (p.openTag :: p.block.tokens ++ before.flatMap Section.tokens) ++
      (sec.tokens ++ after.flatMap Section.tokens) := by
  rw [tokens, hsections]
  simp

/-- Outside of the sections the namespace is the global one. -/
theorem nameAt_block (hnumbered : Numbered 0 p.tokens) {t : Token} (ht : t ∈ p.block.tokens) :
    p.namespaces.nameAt t.index = "" := by
  have hsplit : p.tokens = [p.openTag] ++ (p.block.tokens ++ p.sections.flatMap Section.tokens) := by
    rw [tokens]
    simp
  have hindex := index_mem (hsplit ▸ hnumbered) ht
  have hnone : ∀ e ∈ p.namespaces, e.1.contains t.index = false := by
    intro e he
    obtain ⟨sec, hsec, rfl⟩ := List.mem_map.mp he
    obtain ⟨before, after, hsections⟩ := List.append_of_mem hsec
    obtain ⟨last, -, hfirst, -⟩ :=
      section_bounds (p.tokens_section hsections ▸ hnumbered) p.openTag
    refine contains_eq_false_of_lt_first ?_
    simp only [List.length_append, List.length_cons, List.length_nil] at hindex hfirst
    show t.index < (sec.scope p.openTag).first
    omega
  rw [NamespaceScopes.nameAt, foldl_innermost hnone]
  rfl

/-- What stands in the block of a section is in its namespace. -/
theorem nameAt_section (hnumbered : Numbered 0 p.tokens) {sec : Section} (hsec : sec ∈ p.sections)
    {t : Token} (ht : t ∈ sec.block.tokens) : p.namespaces.nameAt t.index = sec.space := by
  obtain ⟨before, after, hsections⟩ := List.append_of_mem hsec
  obtain ⟨last, hlast, hfirst, hstop, hinside⟩ :=
    section_bounds (p.tokens_section hsections ▸ hnumbered) p.openTag
  obtain ⟨hlow, hhigh⟩ := hinside t ht
  have hsplit : p.namespaces = before.map (fun sec => (sec.scope p.openTag, sec.space)) ++
      (sec.scope p.openTag, sec.space) ::
        after.map fun sec => (sec.scope p.openTag, sec.space) := by
    rw [namespaces, hsections, List.map_append, List.map_cons]
  rw [hsplit]
  refine nameAt_of_contains (fun other hother => ?_) (by simp [Scope.contains, hlast, hlow, hhigh])
    (fun other hother => ?_)
  · obtain ⟨o, ho, rfl⟩ := List.mem_map.mp hother
    obtain ⟨front, back, rfl⟩ := List.append_of_mem ho
    have hsections' : p.sections = front ++ o :: (back ++ sec :: after) := by
      rw [hsections]
      simp
    obtain ⟨end', hend, -, hbelow, -⟩ :=
      section_bounds (p.tokens_section hsections' ▸ hnumbered) p.openTag
    refine contains_eq_false_of_last_lt hend ?_
    simp only [List.length_append, List.flatMap_append, List.flatMap_cons] at hfirst hbelow
    omega
  · obtain ⟨o, ho, rfl⟩ := List.mem_map.mp hother
    obtain ⟨front, back, rfl⟩ := List.append_of_mem ho
    have hsections' : p.sections = (before ++ sec :: front) ++ o :: back := by
      rw [hsections]
      simp
    obtain ⟨end', hend, hbegin, -⟩ :=
      section_bounds (p.tokens_section hsections' ▸ hnumbered) p.openTag
    refine contains_eq_false_of_lt_first ?_
    simp only [List.length_append, List.flatMap_append, List.flatMap_cons] at hstop hbegin
    show t.index < (o.scope p.openTag).first
    omega

/-! ## Tokens around an item -/

/-- An item of a block begins where an item may begin. -/
theorem exists_place_block {b : Block} {space : String} {home : Scope} {pre : List Token}
    (hpre : Boundary pre) {x : Placed} (hx : x ∈ b.placed space home) :
    ∃ front back, b.tokens = front ++ (x.gap.tokens ++ x.item.tokens ++ back) ∧
      Boundary (pre ++ front) := by
  obtain ⟨entry, hentry, rfl⟩ := List.mem_map.mp hx
  obtain ⟨before, after, hitems⟩ := List.append_of_mem hentry
  refine ⟨before.flatMap fun entry => entry.1.tokens ++ entry.2.tokens,
    after.flatMap (fun entry => entry.1.tokens ++ entry.2.tokens) ++ b.trailing.tokens, ?_, ?_⟩
  · rw [Block.tokens, hitems]
    simp
  · rcases List.eq_nil_or_concat before with rfl | ⟨front, last, rfl⟩
    · simpa using hpre
    · rw [List.concat_eq_append, List.flatMap_append, List.flatMap_singleton, ← List.append_assoc,
        ← List.append_assoc]
      exact Scanned.boundary_item last.2

/-- An item begins where an item may begin, and is in its namespace. -/
theorem exists_place (hnumbered : Numbered 0 p.tokens) {x : Placed} (hx : x ∈ p.placed) :
    ∃ front back, p.tokens = front ++ (x.gap.tokens ++ x.item.tokens ++ back) ∧ Boundary front ∧
      ∀ t ∈ x.item.tokens, p.namespaces.nameAt t.index = x.space := by
  have hmem {b : Block} {front back : List Token} {t : Token} (ht : t ∈ x.item.tokens)
      (htokens : b.tokens = front ++ (x.gap.tokens ++ x.item.tokens ++ back)) : t ∈ b.tokens := by
    rw [htokens]
    simp [ht]
  rcases List.mem_append.mp hx with hx | hx
  · have hpre : Boundary [p.openTag] := ⟨[], p.openTag, rfl, .inr ⟨rfl, p.openTag_kind⟩⟩
    obtain ⟨front, back, htokens, hfront⟩ := exists_place_block hpre hx
    refine ⟨_, back ++ p.sections.flatMap Section.tokens, ?_, hfront, fun t ht => ?_⟩
    · rw [tokens, htokens]
      simp
    · obtain ⟨entry, -, rfl⟩ := List.mem_map.mp hx
      exact p.nameAt_block hnumbered (hmem ht htokens)
  · obtain ⟨sec, hsec, hx⟩ := List.mem_flatMap.mp hx
    obtain ⟨before, after, hsections⟩ := List.append_of_mem hsec
    have hpre : Boundary ((p.openTag :: p.block.tokens ++ before.flatMap Section.tokens) ++ sec.head) :=
      Scanned.boundary_head sec
    obtain ⟨front, back, htokens, hfront⟩ := exists_place_block hpre hx
    refine ⟨_, back ++ ((sec.closing.map fun ending => ending.1 :: ending.2.tokens).getD [] ++
      after.flatMap Section.tokens), ?_, hfront, fun t ht => ?_⟩
    · rw [p.tokens_section hsections, Section.tokens, htokens]
      simp
    · obtain ⟨entry, -, rfl⟩ := List.mem_map.mp hx
      exact p.nameAt_section hnumbered hsec (hmem ht htokens)

end Program
end Reflection
