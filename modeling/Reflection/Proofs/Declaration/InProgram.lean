import Reflection.Proofs.Declaration.BetweenStatements

/-!
# Between the statements of a program

Between any two items of a structured program a statement may begin, and so it may at the beginning of a
block and at its end.

## Main definitions

* `Program.Place`: the tokens of a program up to a place between two items.

## Main statements

* `Program.Place.betweenStatements`: a statement may begin at such a place.
-/
namespace Reflection

open Token

/-- The last token before a place where an item may begin bounds statements. -/
theorem exists_bounds_of_boundary {front : List Token} (h : Boundary front) :
    ∃ t, previousSignificant? front.reverse = some t ∧ t.bounds = true := by
  obtain ⟨before, t, rfl, ht⟩ := h
  have hbounds : t.bounds = true := by
    rcases ht with ⟨hkind, htext⟩ | ⟨-, hkind⟩
    · rcases htext with htext | htext | htext <;> simp [bounds, isPunct, hkind, htext]
    · simp [bounds, hkind]
  refine ⟨t, ?_, hbounds⟩
  rw [List.reverse_append, List.reverse_singleton, List.singleton_append, previousSignificant?,
    List.find?_cons, isIgnorable_of_bounds hbounds]
  rfl

/-- Every keyword of constants that was passed is that of a constant statement in a stretch. -/
def OfItems (front : List Token) (passes : List (Token × Option Scope)) : Prop :=
  ∀ pass ∈ passes, pass.1.kind = .constKeyword → ∃ (c : ConstantItem) (before after : List Token),
    front = before ++ (c.tokens ++ after) ∧ pass.1 = c.keyword

namespace OfItems

variable {front : List Token} {passes passes' : List (Token × Option Scope)}

theorem append (h : OfItems front passes) (h' : OfItems front passes') :
    OfItems front (passes ++ passes') := fun pass hpass =>
  (List.mem_append.mp hpass).elim (h pass) (h' pass)

/-- More tokens may stand after the stretch. -/
theorem append_right (h : OfItems front passes) (rest : List Token) : OfItems (front ++ rest) passes := by
  intro pass hpass hkind
  obtain ⟨c, before, after, rfl, hkeyword⟩ := h pass hpass hkind
  exact ⟨c, before, after ++ rest, by simp, hkeyword⟩

/-- The keywords that are passed at items are theirs. -/
theorem of_placed {placed : List Placed} (h : ∀ x ∈ placed, ∃ before after,
    front = before ++ (x.gap.tokens ++ x.item.tokens ++ after)) :
    OfItems front (placed.flatMap Placed.passes) := by
  intro pass hpass hkind
  obtain ⟨x, hx, hpass⟩ := List.mem_flatMap.mp hpass
  obtain ⟨before, after, hfront⟩ := h x hx
  rw [Placed.passes] at hpass
  cases hitem : x.item with
  | braced b =>
    rw [hitem] at hpass
    cases hpass
  | imports u =>
    rw [hitem] at hpass
    rw [List.mem_singleton.mp hpass] at hkind
    exact absurd (u.keyword_kind.symm.trans hkind) (by decide)
  | constants c =>
    rw [hitem] at hpass hfront
    exact ⟨c, before ++ x.gap.tokens, after, by rw [hfront]; simp [Item.tokens],
      by rw [List.mem_singleton.mp hpass]⟩

end OfItems

/-- Where a traversal stands between items, a statement may begin. -/
theorem betweenStatements_of_scanned {front : List Token} {s : Traversal} {listed : List Scope}
    {passes : List (Token × Option Scope)} {home : Scope} {outer : List Scope}
    (hnumbered : Numbered 0 front) (hscanned : Scanned front front s listed passes)
    (hidle : Idle s (home.reopen :: outer)) (hhome : Home home outer) (hboundary : Boundary front)
    (hitems : OfItems front passes) (hpending : (Traversal.run [] {} front).1.pending = none) :
    BetweenStatements front ∧ (Traversal.run [] {} front).1.scopes = home.reopen :: outer := by
  obtain ⟨rest, events, hrest, hrun, -, hpasses, -⟩ := hscanned
  obtain rfl : rest = [] := List.append_right_eq_self.mp hrest.symm
  have hscopes : (Traversal.run [] {} front).1.scopes = home.reopen :: outer := by
    rw [hrun]
    exact hidle.scopes
  refine ⟨⟨exists_bounds_of_boundary hboundary, docCommentBefore_boundary hboundary (List.Subset.refl _),
    hpending, ⟨home.reopen, outer, hscopes, hhome.level, hhome.owner⟩, ?_⟩, hscopes⟩
  intro pre rest t scope hfront hkind huse hpassed hlevel beyond
  rw [hrun] at hpassed
  have hkeyword : isStatementKeyword front t = true := by
    rw [Splice.isStatementKeyword_eq hfront hnumbered, hkind, huse]
    rfl
  have hpass : (t, scope) ∈ passes := by
    rw [← hpasses]
    exact List.mem_filterMap.mpr ⟨_, hpassed, by simp [hkeyword, hlevel]⟩
  obtain ⟨c, before, after, hplace, ht⟩ := hitems _ hpass hkind
  obtain rfl : t = c.keyword := ht
  have hafter : rest = c.tokens.tail ++ after := by
    have hrest : tokensAfter front c.keyword = rest := by
      rw [hfront]
      exact tokensAfter_eq (hfront ▸ hnumbered)
    have hitem : tokensAfter front c.keyword = c.tokens.tail ++ after := by
      have hsplit : front = before ++ c.keyword :: (c.tokens.tail ++ after) := hplace
      rw [hsplit]
      exact tokensAfter_eq (hsplit ▸ hnumbered)
    rw [← hrest, hitem]
  rw [hafter, List.append_assoc, readConst_eq, readConst_eq]
  exact ⟨rfl, rfl⟩

/-! ## Places of a program -/

/-- The tokens of items with the gaps before them. -/
def itemTokens (items : List (Gap × Item)) : List Token :=
  items.flatMap fun entry => entry.1.tokens ++ entry.2.tokens

/-- The items of a block without what follows them. -/
def Block.ofItems (items : List (Gap × Item)) : Block := ⟨items, ⟨[], Gap.ignorable_nil⟩⟩

theorem Block.tokens_ofItems (items : List (Gap × Item)) : (ofItems items).tokens = itemTokens items :=
  List.append_nil _

/-- The tokens of a program up to a place between two items, before the sections or in one of them. -/
inductive Program.Place (p : Program) : List Token → Prop
  | block {items rest : List (Gap × Item)} (hitems : p.block.items = items ++ rest) :
    Place p (p.openTag :: itemTokens items)
  | section {before after : List Section} {sec : Section} {items rest : List (Gap × Item)}
    (hsections : p.sections = before ++ sec :: after) (hitems : sec.block.items = items ++ rest) :
    Place p (p.openTag :: p.block.tokens ++ before.flatMap Section.tokens ++ sec.head ++ itemTokens items)

namespace Program.Place

variable {p : Program} {front : List Token}

/-- A place stands before the rest of its program. -/
theorem exists_append (h : p.Place front) : ∃ back, p.tokens = front ++ back := by
  cases h with
  | @block items rest hitems =>
    refine ⟨itemTokens rest ++ p.block.trailing.tokens ++ p.sections.flatMap Section.tokens, ?_⟩
    simp [tokens, Block.tokens, hitems, itemTokens]
  | @«section» before after sec items rest hsections hitems =>
    refine ⟨itemTokens rest ++ sec.block.trailing.tokens ++
      (sec.closing.map fun ending => ending.1 :: ending.2.tokens).getD [] ++
        after.flatMap Section.tokens, ?_⟩
    rw [p.tokens_section hsections, Section.tokens]
    simp [Block.tokens, hitems, itemTokens]

/-- After items an item may begin, as it may before them. -/
theorem boundary_itemTokens {pre : List Token} (hpre : Boundary pre) (items : List (Gap × Item)) :
    Boundary (pre ++ itemTokens items) := by
  rcases List.eq_nil_or_concat items with rfl | ⟨before, last, rfl⟩
  · simpa [itemTokens] using hpre
  · rw [itemTokens, List.concat_eq_append, List.flatMap_append, List.flatMap_singleton,
      ← List.append_assoc, ← List.append_assoc]
    exact Scanned.boundary_item last.2

/-- The statements of a program are items, and so are those of a section that begins behind it. -/
theorem ofItems_section {earlier : Program} (hnumbered : Numbered 0 earlier.tokens) (sec : Section)
    (items : List (Gap × Item)) :
    OfItems (earlier.tokens ++ sec.head ++ (Block.ofItems items).tokens)
      (earlier.placed.flatMap Placed.passes ++
        ((Block.ofItems items).placed sec.space (sec.scope earlier.openTag)).flatMap Placed.passes) := by
  refine .append ?_ (.of_placed fun x hx => ?_)
  · rw [List.append_assoc]
    refine .append_right (.of_placed fun x hx => ?_) _
    obtain ⟨front, back, hplace, -⟩ := earlier.exists_place hnumbered hx
    exact ⟨front, back, hplace⟩
  · have hhead : Boundary (earlier.tokens ++ sec.head) := Scanned.boundary_head sec
    obtain ⟨front, back, hblock, -⟩ := exists_place_block hhead hx
    exact ⟨earlier.tokens ++ sec.head ++ front, back, by rw [hblock]; simp⟩

/-- Between two items of a program a statement may begin, in a scope inside of that of the file. -/
theorem betweenStatements (h : p.Place front) (hnumbered : Numbered 0 p.tokens)
    (hpending : (Traversal.run [] {} front).1.pending = none) :
    BetweenStatements front ∧
      ∃ file ∈ (Traversal.run [] {} front).1.scopes, file.braceless = false := by
  obtain ⟨back, htokens⟩ := h.exists_append
  have hfront : Numbered 0 front := ((numbered_append 0 front back).mp (htokens ▸ hnumbered)).1
  cases h with
  | @block items rest hitems =>
    obtain ⟨s, hone, hidle⟩ := p.opening (itemTokens items)
    have hboundary := boundary_itemTokens p.boundary_openTag items
    rw [← Block.tokens_ofItems] at hone hfront hboundary hpending ⊢
    obtain ⟨s', hscanned, hidle'⟩ := hone.block (.ofItems items) "" hfront
      (by rw [List.append_nil, List.singleton_append] : _ = [p.openTag] ++ ((Block.ofItems items).tokens ++ []))
      hidle p.home p.boundary_openTag
    have hplaced : OfItems ([p.openTag] ++ (Block.ofItems items).tokens)
        (((Block.ofItems items).placed "" p.scope).flatMap Placed.passes) := by
      refine .of_placed fun x hx => ?_
      obtain ⟨before, after, hblock, -⟩ := exists_place_block p.boundary_openTag hx
      exact ⟨[p.openTag] ++ before, after, by rw [hblock]; simp⟩
    obtain ⟨hbetween, hscopes⟩ := betweenStatements_of_scanned hfront hscanned hidle' p.home hboundary
      hplaced hpending
    refine ⟨hbetween, p.scope.reopen, ?_, rfl⟩
    rw [hscopes]
    exact List.mem_singleton_self _
  | @«section» before after sec items rest hsections hitems =>
    -- The program up to the section is a program as well.
    let earlier : Program := ⟨p.openTag, p.openTag_kind, p.block, before⟩
    have hboundary : Boundary (earlier.tokens ++ sec.head ++ itemTokens items) :=
      boundary_itemTokens (Scanned.boundary_head sec) items
    have hsplit : p.openTag :: p.block.tokens ++ before.flatMap Section.tokens ++ sec.head ++
        itemTokens items = earlier.tokens ++ sec.head ++ (Block.ofItems items).tokens := by
      rw [Block.tokens_ofItems]
      rfl
    rw [← Block.tokens_ofItems] at hboundary
    rw [hsplit] at hfront hpending ⊢
    have hnested : earlier.tokens ++ sec.head ++ (Block.ofItems items).tokens =
        earlier.tokens ++ (sec.head ++ (Block.ofItems items).tokens) := List.append_assoc ..
    have hearlier := earlier.between_of_append (hnested ▸ hfront)
    rw [← hnested] at hearlier
    have hhome := Scanned.home_section p.openTag sec earlier.scope
    obtain ⟨s, hhead, hidle⟩ := Scanned.sectionHead sec (rfl : earlier.scope.owner = some p.openTag) rfl
      hearlier hfront hnested
    obtain ⟨s', hscanned, hidle'⟩ := hhead.block (.ofItems items) sec.space hfront
      (by rw [List.append_nil] : _ = earlier.tokens ++ sec.head ++ ((Block.ofItems items).tokens ++ []))
      hidle hhome (Scanned.boundary_head sec)
    have hnumbered' : Numbered 0 earlier.tokens := ((numbered_append 0 _ _).mp (hnested ▸ hfront)).1
    have hplaced := ofItems_section hnumbered' sec items
    obtain ⟨hbetween, hscopes⟩ := betweenStatements_of_scanned hfront hscanned hidle' hhome hboundary
      hplaced hpending
    refine ⟨hbetween, earlier.scope.reopen, ?_, rfl⟩
    rw [hscopes]
    exact List.mem_cons_of_mem _ (List.mem_singleton_self _)

end Program.Place

end Reflection
