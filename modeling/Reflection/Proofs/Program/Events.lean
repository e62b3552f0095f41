import Reflection.Proofs.Program.Passage

/-!
# The events of a program

The traversal of a structured program finds the scopes of its functions, structures and namespaces as
they close, and the keywords of its statements. Between two items it waits for nothing but perhaps a
function without a block, which the next item or semicolon makes it forget.

## Main definitions

* `Placed.scopes`, `Placed.passes`: what is found of an item.
* `Idle`: the state of a traversal between two items.

## Main statements

* `Scanned.item`, `Scanned.block`, `Scanned.sections`: what is found of a part of a program.
* `Program.between`: what is found of a program.
-/
namespace Reflection

open Token

/-- The scope that an item has of its own. -/
def Placed.scopes (x : Placed) : List Scope :=
  match x.item with
  | .braced b => [b.scope x.home]
  | _ => []

/-- The keyword of an item that is a statement. -/
def Placed.passes (x : Placed) : List (Token × Option Scope) :=
  match x.item with
  | .braced _ => []
  | .imports u => [(u.keyword, some x.home.reopen)]
  | .constants c => [(c.keyword, some x.home.reopen)]

/-- A traversal between two items, with its open scopes. -/
structure Idle (s : Traversal) (stack : List Scope) : Prop where
  scopes : s.scopes = stack
  pending : ∀ t ∈ s.pending, t.kind = .functionKeyword
  previous : s.previous ≠ some .doubleColon

/-- The scope of a file or of a namespace, with the scopes around it. -/
structure Home (home : Scope) (outer : List Scope) : Prop where
  level : home.level = outer.length
  owner : home.ownerKind? = some .openTag ∧ home.level = 0 ∨
    home.ownerKind? = some .namespaceKeyword

namespace Home

variable {home : Scope} {outer : List Scope}

theorem isFileLevel (h : Home home outer) : isFileLevel (some home.reopen) = true := by
  have hkind : home.reopen.ownerKind? = home.ownerKind? := rfl
  have hlevel : home.reopen.level = home.level := rfl
  rcases h.owner with ⟨-, hzero⟩ | howner
  · simp [Reflection.isFileLevel, hlevel, hzero]
  · simp [Reflection.isFileLevel, hkind, howner]

theorem ownsFunctions (h : Home home outer) :
    home.ownerKind?.any Traversal.ownsFunctions = true := by
  rcases h.owner with ⟨howner, -⟩ | howner <;> rw [howner] <;> rfl

theorem not_ownsMethods (h : Home home outer) : home.ownerKind?.any ownsMethods = false := by
  rcases h.owner with ⟨howner, -⟩ | howner <;> rw [howner] <;> rfl

end Home

/-- The stream so far ends where an item may begin. -/
def Boundary (pre : List Token) : Prop :=
  ∃ front t, pre = front ++ [t] ∧
    (t.kind = .punctuation ∧ (t.text = "\x7b" ∨ t.text = "\x7d" ∨ t.text = ";") ∨
      front = [] ∧ t.kind = .openTag)

theorem boundary_of_isPunct {front : List Token} {t : Token} {text : String}
    (ht : t.isPunct text = true) (htext : text = "\x7b" ∨ text = "\x7d" ∨ text = ";") :
    Boundary (front ++ [t]) :=
  ⟨front, t, rfl, .inl ⟨kind_of_isPunct ht, by rwa [text_of_isPunct ht]⟩⟩

theorem isPlain_of_isPunct {t : Token} {text : String} (ht : t.isPunct text = true)
    (hopening : text ≠ "\x7b") (hclosing : text ≠ "\x7d") (hsemicolon : text ≠ ";") :
    t.isPlain = true := by
  simp [isPlain, kind_of_isPunct ht, TokenKind.isDeclaration, isPunct_of_isPunct ht, hopening,
    hclosing, hsemicolon]

namespace Scanned

variable {tokens pre rest : List Token} {s : Traversal} {listed : List Scope}
  {passes : List (Token × Option Scope)} {home : Scope} {outer : List Scope}

/-! ## Items -/

/-- The tokens of an item from its keyword to its block are plain, the keyword left out. -/
theorem isPlain_beforeBody (b : BracedItem) :
    ∀ t ∈ b.beforeName ++ b.name :: b.header, t.isPlain = true := by
  have hand : ∀ t ∈ (b.ampersand.map fun mark => mark.1 :: mark.2.tokens).getD [],
      t.isPlain = true := by
    cases hmark : b.ampersand with
    | none => simp
    | some mark =>
      intro t ht
      rcases List.mem_cons.mp ht with rfl | ht
      · exact isPlain_of_isPunct (b.ampersand_isPunct mark hmark) (by decide) (by decide) (by decide)
      · exact isPlain_of_ignorable (mark.2.ignorable t ht)
  intro t ht
  rcases List.mem_append.mp ht with ht | ht
  · rcases List.mem_append.mp ht with ht | ht
    · exact isPlain_of_ignorable (b.gap.ignorable t ht)
    · exact hand t ht
  · rcases List.mem_cons.mp ht with rfl | ht
    · exact isPlain_of_isIdentifier (isIdentifier_of_isNameStart b.name_isNameStart)
    · exact b.header_isPlain t ht

/-- The block of an item is a scope inside of the file, and is listed when it has closed. -/
theorem inner_scope (b : BracedItem) : Inner (b.scope home).reopen := by
  have howner : (b.scope home).reopen.ownerKind? = some b.keyword.kind := rfl
  have hlevel : (b.scope home).reopen.level = home.level + 1 := rfl
  have hkind := b.ofOwner?_keyword
  have hne := b.kind_ne
  cases hkeyword : b.keyword.kind <;>
    simp_all [Inner, isFileLevel, DeclarationKind.ofOwner?]

theorem isListed_scope (b : BracedItem) (hhome : Home home outer) :
    (b.scope home).isListed = true := by
  have howner : (b.scope home).ownerKind? = some b.keyword.kind := rfl
  have hparent : (b.scope home).parentKind?.any ownsMethods = false := hhome.not_ownsMethods
  simp [Scope.isListed, ownerDeclaration?, howner, b.ofOwner?_keyword, hparent]

/-- A closing brace ends the innermost scope and leaves the ones around it as they are between two items. -/
theorem closing {t : Token} {scope : Scope} {stack : List Scope}
    (h : Scanned tokens pre s listed passes) (htokens : tokens = pre ++ t :: rest)
    (ht : t.isPunct "\x7d" = true) (hs : s.scopes = scope.reopen :: stack)
    (hlast : scope.last = some t.index) (hlisted : scope.isListed = true)
    (hpending : ∀ u ∈ s.pending, u.kind = .functionKeyword) :
    ∃ s', Scanned tokens (pre ++ [t]) s' (listed ++ [scope]) passes ∧ Idle s' stack := by
  have hkind := kind_of_isPunct ht
  have hclosed : scope.reopen.close t.index = scope := by
    show { scope with last := some t.index } = scope
    rw [← hlast]
  have hcloses : s.process t rest = ({ s with scopes := stack }, [.closed scope]) := by
    rw [Traversal.process_closing ht, Traversal.closeScope, hs]
    simp only [hclosed]
  have hone := h.closed htokens hcloses (by simp [hkind]) (by simp [hkind])
  rw [List.filter_cons_of_pos hlisted, List.filter_nil] at hone
  refine ⟨_, hone, Traversal.scopes_note _ _, fun u hu => ?_, ?_⟩
  · rw [Traversal.pending_note] at hu
    exact hpending u hu
  · rw [Traversal.previous_note (isIgnorable_of_isPunct ht), hkind]
    simp

/-- The head of a function or of a structure leads into its block, which the keyword owns. -/
theorem bracedHead (b : BracedItem) (h : Scanned tokens pre s listed passes)
    (htokens : tokens =
      pre ++ b.keyword :: ((b.beforeName ++ b.name :: b.header) ++ b.opening :: rest))
    (hs : Idle s (home.reopen :: outer)) (hhome : Home home outer) :
    ∃ s', Scanned tokens (pre ++ [b.keyword] ++ (b.beforeName ++ b.name :: b.header) ++ [b.opening])
        s' listed passes ∧
      s'.scopes = (b.scope home).reopen :: home.reopen :: outer ∧ s'.pending = none := by
  have hopen : s.scopes ≠ [] := by rw [hs.scopes]; exact List.cons_ne_nil _ _
  have howns : (s.current?.bind Scope.ownerKind?).any Traversal.ownsFunctions = true := by
    rw [Traversal.current?, hs.scopes]
    exact hhome.ownsFunctions
  -- The keyword waits for its block.
  have hkeyword : isStatementKeyword tokens b.keyword = false := by
    have hkind := b.ofOwner?_keyword
    refine isStatementKeyword_of_ne (fun heq => ?_) (fun heq => ?_) <;> rw [heq] at hkind <;>
      cases hkind
  have hone := h.keep htokens
    (Traversal.process_keyword b.ofOwner?_keyword b.kind_ne hs.previous howns)
    (by rw [hkeyword, Bool.false_and])
  have htokens₁ : tokens =
      pre ++ [b.keyword] ++ ((b.beforeName ++ b.name :: b.header) ++ b.opening :: rest) := by
    rw [htokens]
    simp
  obtain ⟨s₁, hscanned₁, hscopes₁, hpending₁⟩ := hone.plain htokens₁ (isPlain_beforeBody b)
    (by simpa using hopen)
  simp only [Traversal.scopes_note, Traversal.pending_note] at hscopes₁ hpending₁
  have hopening := kind_of_isPunct b.opening_isPunct
  have hstack : s₁.scopes = home.reopen :: outer := hscopes₁.trans hs.scopes
  have hopens : s₁.process b.opening rest =
      ({ s₁ with scopes := (b.scope home).reopen :: home.reopen :: outer, pending := none },
        [.opened (b.scope home).reopen]) := by
    have hlevel : (home.reopen :: outer).length = home.level + 1 := by simp [hhome.level]
    rw [Traversal.process_opening b.opening_isPunct, Traversal.openScope, Traversal.current?, hstack,
      hpending₁, hlevel]
    rfl
  have htwo := hscanned₁.opened (by rw [htokens₁]; simp) hopens (by simp [hopening])
    (by simp [hopening])
  exact ⟨_, htwo, Traversal.scopes_note _ _, Traversal.pending_note _ _⟩

/-- A function or a structure is found as its scope. -/
theorem braced (b : BracedItem) (h : Scanned tokens pre s listed passes)
    (htokens : tokens = pre ++ (b.tokens ++ rest)) (hs : Idle s (home.reopen :: outer))
    (hhome : Home home outer) :
    ∃ s', Scanned tokens (pre ++ b.tokens) s' (listed ++ [b.scope home]) passes ∧
      Idle s' (home.reopen :: outer) := by
  have htokens₀ : tokens = pre ++ b.keyword :: ((b.beforeName ++ b.name :: b.header) ++
      b.opening :: (b.body ++ (b.closing :: rest))) := by
    rw [htokens, BracedItem.tokens]
    simp
  obtain ⟨s₁, hscanned₁, hscopes₁, hpending₁⟩ := h.bracedHead b htokens₀ hs hhome
  have htokens₁ : tokens = pre ++ [b.keyword] ++ (b.beforeName ++ b.name :: b.header) ++
      [b.opening] ++ (b.body ++ (b.closing :: rest)) := by
    rw [htokens₀]
    simp
  obtain ⟨s₂, hscanned₂, hscopes₂, hpending₂⟩ := hscanned₁.body b.body_balanced htokens₁ hscopes₁
    (inner_scope b) (fun u hu => by rw [hpending₁] at hu; cases hu)
  have htokens₂ : tokens = pre ++ [b.keyword] ++ (b.beforeName ++ b.name :: b.header) ++
      [b.opening] ++ b.body ++ b.closing :: rest := by
    rw [htokens₁]
    simp
  obtain ⟨s', hscanned, hidle⟩ := hscanned₂.closing htokens₂ b.closing_isPunct hscopes₂ rfl
    (isListed_scope b hhome) fun u hu => (hpending₂ u hu).1
  have hpassed : pre ++ [b.keyword] ++ (b.beforeName ++ b.name :: b.header) ++ [b.opening] ++
      b.body ++ [b.closing] = pre ++ b.tokens := by
    rw [BracedItem.tokens]
    simp
  exact ⟨s', hpassed ▸ hscanned, hidle⟩

/-- A semicolon after plain tokens leaves nothing that waits. -/
theorem ending {ts : List Token} {t : Token} {stack : List Scope}
    (h : Scanned tokens pre s listed passes) (htokens : tokens = pre ++ (ts ++ t :: rest))
    (hplain : ∀ u ∈ ts, u.isPlain = true) (ht : t.isPunct ";" = true) (hs : s.scopes = stack)
    (hstack : stack ≠ []) (hpending : ∀ u ∈ s.pending, u.kind = .functionKeyword) :
    ∃ s', Scanned tokens (pre ++ (ts ++ [t])) s' listed passes ∧ Idle s' stack := by
  obtain ⟨s₁, hscanned₁, hscopes₁, hpending₁⟩ := h.plain htokens hplain (by rwa [hs])
  have hkind := kind_of_isPunct ht
  have hprocess : s₁.process t rest = ({ s₁ with pending := none }, []) := by
    rw [Traversal.process_semicolon ht, Traversal.terminate, hpending₁]
    cases hwaiting : s.pending with
    | none =>
      rw [hwaiting] at hpending₁
      cases s₁
      cases hpending₁
      rfl
    | some u => simp [hpending u hwaiting]
  have htwo := hscanned₁.keep (by rw [htokens, List.append_assoc]) hprocess
    (by rw [isStatementKeyword_of_ne (by simp [hkind]) (by simp [hkind]), Bool.false_and])
  rw [List.append_assoc] at htwo
  refine ⟨_, htwo, (Traversal.scopes_note _ _).trans (hscopes₁.trans hs), fun u hu => ?_, ?_⟩
  · rw [Traversal.pending_note] at hu
    cases hu
  · rw [Traversal.previous_note (isIgnorable_of_isPunct ht), hkind]
    simp

theorem isPlain_parts {α : Type} {tokensOf : α → List Token}
    (h : ∀ part, ∀ t ∈ tokensOf part, t.isPlain = true) (p : Parts α) :
    ∀ t ∈ p.tokens tokensOf, t.isPlain = true := by
  intro t ht
  rcases List.mem_append.mp ht with ht | ht
  · exact h p.first t ht
  · obtain ⟨part, hpart, ht⟩ := List.mem_flatMap.mp ht
    rcases List.mem_cons.mp ht with rfl | ht
    · exact isPlain_of_isPunct (p.comma_isPunct part hpart) (by decide) (by decide) (by decide)
    · exact h part.2 t ht

theorem isPlain_qualifiedName (n : QualifiedName) : ∀ t ∈ n.tokens, t.isPlain = true := by
  intro t ht
  rcases List.mem_cons.mp ht with rfl | ht
  · exact isPlain_of_isIdentifier (isIdentifier_of_isNameStart n.head_isNameStart)
  · obtain ⟨segment, hsegment, ht⟩ := List.mem_flatMap.mp ht
    obtain ⟨hseparator, hident⟩ := n.tail_isName segment hsegment
    have hkind : segment.1.kind = .separator := beq_iff_eq.mp (Bool.and_eq_true_iff.mp hseparator).1
    rcases List.mem_cons.mp ht with rfl | ht
    · simp [isPlain, hkind, TokenKind.isDeclaration, isPunct]
    · rw [List.mem_singleton.mp ht]
      exact isPlain_of_isIdentifier hident

theorem isPlain_import (c : ImportClause) : ∀ t ∈ c.tokens, t.isPlain = true := by
  have hgap (g : Gap) : ∀ t ∈ g.tokens, t.isPlain = true := fun t ht =>
    isPlain_of_ignorable (g.ignorable t ht)
  have hrenamed : ∀ t ∈ (c.renamed.map fun part =>
      part.1 :: part.2.1.tokens ++ part.2.2.1 :: part.2.2.2.tokens).getD [], t.isPlain = true := by
    cases hrenamed : c.renamed with
    | none => simp
    | some part =>
      obtain ⟨hkind, hident⟩ := c.renamed_isAlias part hrenamed
      intro t ht
      simp only [Option.map_some, Option.getD_some, List.cons_append, List.mem_cons,
        List.mem_append] at ht
      rcases ht with rfl | ht | rfl | ht
      · simp [isPlain, hkind, TokenKind.isDeclaration, isPunct]
      · exact hgap _ t ht
      · exact isPlain_of_isIdentifier hident
      · exact hgap _ t ht
  intro t ht
  simp only [ImportClause.tokens, List.mem_append] at ht
  rcases ht with (((ht | ht) | ht) | ht) | ht
  · exact hgap _ t ht
  · have hkind : t.kind = .separator :=
      beq_iff_eq.mp (Bool.and_eq_true_iff.mp (c.lead_isNameSeparator t ht)).1
    simp [isPlain, hkind, TokenKind.isDeclaration, isPunct]
  · exact isPlain_qualifiedName c.name t ht
  · exact hgap _ t ht
  · exact hrenamed t ht

theorem isPlain_constant (c : ConstantClause) : ∀ t ∈ c.tokens, t.isPlain = true := by
  intro t ht
  simp only [ConstantClause.tokens, List.mem_append, List.mem_cons] at ht
  rcases ht with (ht | rfl | ht) | rfl | ht
  · exact (c.before_isPlain t ht).1
  · exact isPlain_of_isIdentifier c.name_isIdentifier
  · exact isPlain_of_ignorable (c.after.ignorable t ht)
  · exact isPlain_of_isPunct c.equals_isPunct (by decide) (by decide) (by decide)
  · exact c.value_isPlain t ht

/-- The last significant token before a gap. -/
theorem previousSignificant?_gap {front : List Token} {t : Token} (ht : t.isIgnorable = false)
    (g : Gap) : previousSignificant? (front ++ [t] ++ g.tokens).reverse = some t := by
  have hnone : g.tokens.reverse.find? (!·.isIgnorable) = none := by
    rw [List.find?_eq_none]
    intro u hu
    simp [g.ignorable u (List.mem_reverse.mp hu)]
  rw [previousSignificant?, List.reverse_append, List.find?_append, hnone, List.reverse_append]
  simp [ht]

/-- The last significant token before an item begins no import. -/
theorem previous_of_boundary (hpre : Boundary pre) (g : Gap) :
    (previousSignificant? (pre ++ g.tokens).reverse).any (·.kind == .useKeyword) = false := by
  obtain ⟨front, t, rfl, ht⟩ := hpre
  have hsignificant : t.isIgnorable = false ∧ (t.kind == .useKeyword) = false := by
    rcases ht with ⟨hkind, -⟩ | ⟨-, hkind⟩ <;> simp [isIgnorable, hkind, TokenKind.isIgnorable]
  rw [previousSignificant?_gap hsignificant.1, Option.any_some, hsignificant.2]

theorem isStatementKeyword_eq {t : Token} (hnumbered : Numbered 0 (pre ++ t :: rest)) :
    isStatementKeyword (pre ++ t :: rest) t = (t.kind == .useKeyword ||
      (t.kind == .constKeyword &&
        !(previousSignificant? pre.reverse).any (·.kind == .useKeyword))) := by
  rw [isStatementKeyword, take_index hnumbered]

/-- A word for the kind of imported symbols is no keyword of a statement, though it may wait like a
function. -/
theorem word {t : Token} (h : Scanned tokens pre s listed passes)
    (hnumbered : Numbered 0 tokens) (htokens : tokens = pre ++ t :: rest)
    (ht : t.kind = .functionKeyword ∨ t.kind = .constKeyword) (hs : s.scopes = home.reopen :: outer)
    (hhome : Home home outer) (hprevious : s.previous = some .useKeyword)
    (hpending : ∀ u ∈ s.pending, u.kind = .functionKeyword)
    (huse : (previousSignificant? pre.reverse).any (·.kind == .useKeyword) = true) :
    ∃ s', Scanned tokens (pre ++ [t]) s' listed passes ∧ s'.scopes = home.reopen :: outer ∧
      ∀ u ∈ s'.pending, u.kind = .functionKeyword := by
  have hpass : isStatementKeyword tokens t = false := by
    rw [htokens] at hnumbered ⊢
    rw [isStatementKeyword_eq hnumbered, huse]
    rcases ht with hkind | hkind <;> simp [hkind]
  rcases ht with hkind | hkind
  · have howns : (s.current?.bind Scope.ownerKind?).any Traversal.ownsFunctions = true := by
      rw [Traversal.current?, hs]
      exact hhome.ownsFunctions
    have hfunction : DeclarationKind.ofOwner? t.kind = some .functionKind := by rw [hkind]; rfl
    have hone := h.keep htokens
      (Traversal.process_keyword hfunction (by decide) (by simp [hprevious]) howns)
      (by rw [hpass, Bool.false_and])
    refine ⟨_, hone, (Traversal.scopes_note _ _).trans hs, fun u hu => ?_⟩
    rw [Traversal.pending_note] at hu
    cases hu
    exact hkind
  · have hone := h.keep htokens (Traversal.process_statement (.inr hkind))
      (by rw [hpass, Bool.false_and])
    exact ⟨_, hone, (Traversal.scopes_note _ _).trans hs, by simpa using hpending⟩

/-- An import statement is found as its keyword. A word for the kind of the symbols may wait like a
function, up to the semicolon. -/
theorem imports (u : ImportItem) (h : Scanned tokens pre s listed passes)
    (hnumbered : Numbered 0 tokens) (htokens : tokens = pre ++ (u.tokens ++ rest))
    (hs : Idle s (home.reopen :: outer)) (hhome : Home home outer) :
    ∃ s', Scanned tokens (pre ++ u.tokens) s' listed (passes ++ [(u.keyword, some home.reopen)]) ∧
      Idle s' (home.reopen :: outer) := by
  have hcurrent : s.current? = some home.reopen := by rw [Traversal.current?, hs.scopes]; rfl
  have hkind := u.keyword_kind
  let clauses := u.clauses.tokens ImportClause.tokens
  have htokens₀ : tokens = pre ++ u.keyword ::
      ((u.word.map fun part => part.1.tokens ++ [part.2]).getD [] ++
        (clauses ++ u.semicolon :: rest)) := by
    rw [htokens, ImportItem.tokens]
    simp [clauses]
  have hone := h.statement htokens₀ (Traversal.process_statement (.inl hkind))
    (by rw [hcurrent, hhome.isFileLevel, isStatementKeyword, hkind]; rfl)
  rw [hcurrent] at hone
  have hstack : (s.note u.keyword).scopes = home.reopen :: outer := by
    rw [Traversal.scopes_note, hs.scopes]
  have hplain := isPlain_parts isPlain_import u.clauses
  cases hword : u.word with
  | none =>
    have htokens₁ : tokens = pre ++ [u.keyword] ++ (clauses ++ u.semicolon :: rest) := by
      rw [htokens₀, hword]
      simp
    obtain ⟨s', hscanned, hidle⟩ := hone.ending htokens₁ hplain u.semicolon_isPunct hstack
      (List.cons_ne_nil _ _) (by simpa using hs.pending)
    refine ⟨s', ?_, hidle⟩
    simpa [ImportItem.tokens, hword] using hscanned
  | some part =>
    have htokens₁ : tokens = pre ++ [u.keyword] ++
        (part.1.tokens ++ (part.2 :: (clauses ++ u.semicolon :: rest))) := by
      rw [htokens₀, hword]
      simp
    have htwo := hone.gap htokens₁ (by rw [hstack]; exact List.cons_ne_nil _ _)
    have htokens₂ : tokens = pre ++ [u.keyword] ++ part.1.tokens ++
        part.2 :: (clauses ++ u.semicolon :: rest) := by
      rw [htokens₁]
      simp
    have hprevious : (s.note u.keyword).previous = some .useKeyword := by
      rw [Traversal.previous_note (by simp [isIgnorable, hkind, TokenKind.isIgnorable]), hkind]
    have huse : (previousSignificant? (pre ++ [u.keyword] ++ part.1.tokens).reverse).any
        (·.kind == .useKeyword) = true := by
      rw [previousSignificant?_gap (by simp [isIgnorable, hkind, TokenKind.isIgnorable]),
        Option.any_some, hkind]
      rfl
    obtain ⟨s₁, hthree, hstack₁, hpending₁⟩ := word htwo hnumbered htokens₂ (u.word_kind part hword)
      hstack hhome hprevious (by simpa using hs.pending) huse
    have htokens₃ : tokens = pre ++ [u.keyword] ++ part.1.tokens ++ [part.2] ++
        (clauses ++ u.semicolon :: rest) := by
      rw [htokens₂]
      simp
    obtain ⟨s', hscanned, hidle⟩ := hthree.ending htokens₃ hplain u.semicolon_isPunct hstack₁
      (List.cons_ne_nil _ _) hpending₁
    refine ⟨s', ?_, hidle⟩
    simpa [ImportItem.tokens, hword] using hscanned

/-- A constant statement is found as its keyword. -/
theorem constants (c : ConstantItem) (h : Scanned tokens pre s listed passes)
    (hnumbered : Numbered 0 tokens) (htokens : tokens = pre ++ (c.tokens ++ rest))
    (hs : Idle s (home.reopen :: outer)) (hhome : Home home outer)
    (huse : (previousSignificant? pre.reverse).any (·.kind == .useKeyword) = false) :
    ∃ s', Scanned tokens (pre ++ c.tokens) s' listed (passes ++ [(c.keyword, some home.reopen)]) ∧
      Idle s' (home.reopen :: outer) := by
  have hcurrent : s.current? = some home.reopen := by rw [Traversal.current?, hs.scopes]; rfl
  have hkind := c.keyword_kind
  have htokens₀ : tokens = pre ++ c.keyword ::
      (c.clauses.tokens ConstantClause.tokens ++ c.semicolon :: rest) := by
    rw [htokens, ConstantItem.tokens]
    simp
  have hpass : isStatementKeyword tokens c.keyword = true := by
    rw [htokens₀] at hnumbered ⊢
    rw [isStatementKeyword_eq hnumbered, huse, hkind]
    rfl
  have hone := h.statement htokens₀ (Traversal.process_statement (.inr hkind))
    (by rw [hcurrent, hhome.isFileLevel, hpass]; rfl)
  rw [hcurrent] at hone
  have htokens₁ : tokens = pre ++ [c.keyword] ++
      (c.clauses.tokens ConstantClause.tokens ++ c.semicolon :: rest) := by
    rw [htokens₀]
    simp
  obtain ⟨s', hscanned, hidle⟩ := hone.ending htokens₁ (isPlain_parts isPlain_constant c.clauses)
    c.semicolon_isPunct ((Traversal.scopes_note _ _).trans hs.scopes) (List.cons_ne_nil _ _)
    (by simpa using hs.pending)
  refine ⟨s', ?_, hidle⟩
  simpa [ConstantItem.tokens] using hscanned

/-- An item ends where another one may begin. -/
theorem boundary_item (it : Item) : Boundary (pre ++ it.tokens) := by
  cases it with
  | braced b =>
    rw [Item.tokens, BracedItem.tokens, ← List.append_assoc]
    exact boundary_of_isPunct b.closing_isPunct (by simp)
  | imports u =>
    rw [Item.tokens, ImportItem.tokens, ← List.append_assoc]
    exact boundary_of_isPunct u.semicolon_isPunct (by simp)
  | constants c =>
    rw [Item.tokens, ConstantItem.tokens, ← List.append_assoc]
    exact boundary_of_isPunct c.semicolon_isPunct (by simp)

/-- An item with the gap before it is found as its scope or its keyword. -/
theorem item (x : Placed) (h : Scanned tokens pre s listed passes) (hnumbered : Numbered 0 tokens)
    (htokens : tokens = pre ++ (x.gap.tokens ++ x.item.tokens ++ rest))
    (hs : Idle s (x.home.reopen :: outer)) (hhome : Home x.home outer) (hpre : Boundary pre) :
    ∃ s', Scanned tokens (pre ++ (x.gap.tokens ++ x.item.tokens)) s' (listed ++ x.scopes)
        (passes ++ x.passes) ∧ Idle s' (x.home.reopen :: outer) := by
  have hone := h.gap (by rw [htokens, List.append_assoc])
    (by rw [hs.scopes]; exact List.cons_ne_nil _ _)
  have htokens₁ : tokens = pre ++ x.gap.tokens ++ (x.item.tokens ++ rest) := by
    rw [htokens]
    simp
  simp only [Placed.scopes, Placed.passes]
  cases hitem : x.item with
  | braced b =>
    rw [hitem] at htokens₁
    obtain ⟨s', hscanned, hidle⟩ := hone.braced b htokens₁ hs hhome
    exact ⟨s', by simpa [Item.tokens] using hscanned, hidle⟩
  | imports u =>
    rw [hitem] at htokens₁
    obtain ⟨s', hscanned, hidle⟩ := hone.imports u hnumbered htokens₁ hs hhome
    exact ⟨s', by simpa [Item.tokens] using hscanned, hidle⟩
  | constants c =>
    rw [hitem] at htokens₁
    obtain ⟨s', hscanned, hidle⟩ := hone.constants c hnumbered htokens₁ hs hhome
      (previous_of_boundary hpre x.gap)
    exact ⟨s', by simpa [Item.tokens] using hscanned, hidle⟩

/-- A block is found as its items. -/
theorem block (b : Block) (space : String) (h : Scanned tokens pre s listed passes)
    (hnumbered : Numbered 0 tokens) (htokens : tokens = pre ++ (b.tokens ++ rest))
    (hs : Idle s (home.reopen :: outer)) (hhome : Home home outer) (hpre : Boundary pre) :
    ∃ s', Scanned tokens (pre ++ b.tokens) s'
        (listed ++ (b.placed space home).flatMap Placed.scopes)
        (passes ++ (b.placed space home).flatMap Placed.passes) ∧
      Idle s' (home.reopen :: outer) := by
  obtain ⟨items, trailing⟩ := b
  induction items generalizing pre s listed passes with
  | nil =>
    have hgap := h.gap htokens (by rw [hs.scopes]; exact List.cons_ne_nil _ _)
    refine ⟨s, ?_, hs⟩
    simpa [Block.tokens, Block.placed] using hgap
  | cons entry items ih =>
    have htokens₀ : tokens = pre ++ (entry.1.tokens ++ entry.2.tokens ++
        ((⟨items, trailing⟩ : Block).tokens ++ rest)) := by
      rw [htokens]
      simp [Block.tokens]
    obtain ⟨s₁, hscanned₁, hidle₁⟩ := h.item ⟨entry.1, entry.2, space, home⟩ hnumbered htokens₀ hs
      hhome hpre
    have hboundary : Boundary (pre ++ (entry.1.tokens ++ entry.2.tokens)) := by
      rw [← List.append_assoc]
      exact boundary_item entry.2
    obtain ⟨s', hscanned, hidle⟩ := ih hscanned₁ hidle₁ hboundary (by rw [htokens₀]; simp)
    refine ⟨s', ?_, hidle⟩
    simpa [Block.tokens, Block.placed] using hscanned

/-! ## Sections -/

/-- The traversal stands between two sections of a file: in the scope of the file, or still in that of
the section before, which is counted as if it had closed before the next token. -/
def Between (tokens pre : List Token) (file : Scope) (listed : List Scope)
    (passes : List (Token × Option Scope)) : Prop :=
  ∃ s, Scanned tokens pre s listed passes ∧ Idle s [file.reopen] ∨
    ∃ last before, listed = before ++ [last] ∧ Scanned tokens pre s before passes ∧
      Idle s [last.reopen, file.reopen] ∧ last.braceless = true ∧ last.isListed = true ∧
      last.last = some ((pre.length : Int) - 1)

/-- What stands between the keyword of a section and its opening token is plain. -/
theorem isPlain_beforeOpening (sec : Section) : ∀ t ∈ sec.beforeOpening, t.isPlain = true := by
  intro t ht
  rcases List.mem_append.mp ht with ht | ht
  · rcases List.mem_append.mp ht with ht | ht
    · exact isPlain_of_ignorable (sec.before.ignorable t ht)
    · cases hname : sec.name with
      | none => simp [hname] at ht
      | some n => exact isPlain_qualifiedName n t (by simpa [hname] using ht)
  · exact isPlain_of_ignorable (sec.after.ignorable t ht)

/-- The keyword of a section stands before no separator, unless its statement ends in one. -/
theorem notRelative_beforeOpening (sec : Section) {t : Token} (ht : t.isIgnorable = false)
    (hkind : t.kind ≠ .separator) (left : List Token) :
    ((sec.beforeOpening ++ t :: left).find? (!·.isIgnorable)).any (·.kind == .separator) = false := by
  have hgap (g : Gap) (ts : List Token) :
      (g.tokens ++ ts).find? (!·.isIgnorable) = ts.find? (!·.isIgnorable) := by
    have hnone : g.tokens.find? (!·.isIgnorable) = none := by
      rw [List.find?_eq_none]
      intro u hu
      simp [g.ignorable u hu]
    rw [List.find?_append, hnone, Option.none_or]
  simp only [Section.beforeOpening, List.append_assoc, hgap]
  cases hname : sec.name with
  | none =>
    simp only [Option.map_none, Option.getD_none, List.nil_append, hgap]
    simp [ht, hkind]
  | some n =>
    have hident := isIdentifier_of_isNameStart n.head_isNameStart
    have hseparator : (n.head.kind == .separator) = false := by
      have := (Bool.and_eq_true_iff.mp n.head_isNameStart).1
      rw [beq_iff_eq.mp this]
      rfl
    simp [QualifiedName.tokens, isIgnorable_of_isIdentifier hident, hseparator]

/-- The keyword of a section stands before no separator. -/
theorem notRelative (sec : Section) (left : List Token) :
    ((sec.head.tail ++ left).find? (!·.isIgnorable)).any (·.kind == .separator) = false := by
  have hhead : sec.head.tail ++ left = sec.beforeOpening ++ sec.opening :: left := by
    simp [Section.head, Section.beforeOpening]
  rw [hhead]
  refine notRelative_beforeOpening sec (isIgnorable_of_isPunct sec.opening_isPunct) ?_ left
  simp [kind_of_isPunct sec.opening_isPunct]

/-- The keyword of a section ends the section before it. -/
theorem sectionKeyword (sec : Section) {file : Scope} (hfile : file.braceless = false)
    (h : Between tokens pre file listed passes) (hnumbered : Numbered 0 tokens)
    (htokens : tokens = pre ++ sec.keyword :: (sec.head.tail ++ rest)) :
    ∃ s, Scanned tokens (pre ++ [sec.keyword]) s listed passes ∧ s.scopes = [file.reopen] ∧
      s.pending = some sec.keyword := by
  have hkind := sec.keyword_kind
  have hindex : sec.keyword.index = pre.length := by
    rw [htokens] at hnumbered
    exact index_eq_length hnumbered
  have hpass : isStatementKeyword tokens sec.keyword = false :=
    isStatementKeyword_of_ne (by simp [hkind]) (by simp [hkind])
  have hprocess (s : Traversal) : s.process sec.keyword (sec.head.tail ++ rest) =
      ({ (s.closeBraceless sec.keyword.index).1 with pending := some sec.keyword },
        (s.closeBraceless sec.keyword.index).2) := by
    simp only [Traversal.process, hkind, notRelative, Bool.false_eq_true, if_false]
  obtain ⟨s, ⟨hscanned, hidle⟩ | ⟨last, before, rfl, hscanned, hidle, hbraceless, hlisted, hlast⟩⟩ := h
  · have hclose : s.closeBraceless sec.keyword.index = (s, []) := by
      have hopen : file.reopen.braceless = false := hfile
      simp [Traversal.closeBraceless, hidle.scopes, hopen]
    have hone := hscanned.keep htokens (by rw [hprocess, hclose]) (by rw [hpass, Bool.false_and])
    exact ⟨_, hone, (Traversal.scopes_note _ _).trans hidle.scopes, Traversal.pending_note _ _⟩
  · have hclosed : last.reopen.close (sec.keyword.index - 1) = last := by
      rw [hindex]
      cases last
      simp_all [Scope.close, Scope.reopen]
    have hclose : s.closeBraceless sec.keyword.index =
        ({ s with scopes := [file.reopen] }, [.closed last]) := by
      have hopen : last.reopen.braceless = true := hbraceless
      simp [Traversal.closeBraceless, Traversal.closeScope, hidle.scopes, hopen, hclosed]
    have hone := hscanned.closed htokens (by rw [hprocess, hclose]) (by simp [hkind])
      (by simp [hkind])
    rw [List.filter_cons_of_pos hlisted, List.filter_nil] at hone
    exact ⟨_, hone, Traversal.scopes_note _ _, Traversal.pending_note _ _⟩

/-- The opening token of a section opens its scope. -/
theorem sectionOpening (sec : Section) {s : Traversal} {file : Scope} {tag : Token}
    (hfile : file.owner = some tag) (hs : s.scopes = [file.reopen])
    (hpending : s.pending = some sec.keyword) (left : List Token) :
    s.process sec.opening left =
      ({ s with scopes := [(sec.scope tag).reopen, file.reopen], pending := none },
        [.opened (sec.scope tag).reopen]) := by
  have hopening := sec.opening_isPunct
  cases hclosing : sec.closing with
  | none =>
    rw [hclosing] at hopening
    rw [Traversal.process_semicolon hopening, Traversal.terminate, hpending]
    simp [sec.keyword_kind, Traversal.openScope, Traversal.current?, hs, hfile, hpending,
      Section.scope, Scope.reopen, hclosing]
  | some ending =>
    rw [hclosing] at hopening
    rw [Traversal.process_opening hopening]
    simp [Traversal.openScope, Traversal.current?, hs, hfile, hpending, Section.scope, Scope.reopen,
      hclosing]

/-- What is found of a section: the scopes of its items, and then its own. -/
def sectionScopes (tag : Token) (sec : Section) : List Scope :=
  (sec.block.placed sec.space (sec.scope tag)).flatMap Placed.scopes ++ [sec.scope tag]

/-- The keywords of the statements of a section. -/
def sectionPasses (tag : Token) (sec : Section) : List (Token × Option Scope) :=
  (sec.block.placed sec.space (sec.scope tag)).flatMap Placed.passes

theorem home_section (tag : Token) (sec : Section) (file : Scope) :
    Home (sec.scope tag) [file.reopen] where
  level := rfl
  owner := .inr (by simp [Section.scope, Scope.ownerKind?, sec.keyword_kind])

theorem isListed_section (tag : Token) (sec : Section) : (sec.scope tag).isListed = true := by
  simp [Scope.isListed, ownerDeclaration?, Section.scope, Scope.ownerKind?, sec.keyword_kind,
    DeclarationKind.ofOwner?]

/-- The head of a section leads into its scope. -/
theorem sectionHead (sec : Section) {file : Scope} {tag : Token} (hfile : file.owner = some tag)
    (hbraceless : file.braceless = false) (h : Between tokens pre file listed passes)
    (hnumbered : Numbered 0 tokens) (htokens : tokens = pre ++ (sec.head ++ rest)) :
    ∃ s, Scanned tokens (pre ++ sec.head) s listed passes ∧
      Idle s [(sec.scope tag).reopen, file.reopen] := by
  have htokens₀ : tokens = pre ++ sec.keyword :: (sec.head.tail ++ rest) := htokens
  obtain ⟨s₁, hscanned₁, hscopes₁, hpending₁⟩ :=
    sectionKeyword sec hbraceless h hnumbered htokens₀
  have htokens₁ : tokens = pre ++ [sec.keyword] ++ (sec.beforeOpening ++ sec.opening :: rest) := by
    rw [htokens, Section.head]
    simp [Section.beforeOpening]
  obtain ⟨s₂, hscanned₂, hscopes₂, hpending₂⟩ := hscanned₁.plain htokens₁
    (isPlain_beforeOpening sec) (by rw [hscopes₁]; exact List.cons_ne_nil _ _)
  have hkind := kind_of_isPunct sec.opening_isPunct
  have hopens := sectionOpening sec hfile (hscopes₂.trans hscopes₁) (hpending₂.trans hpending₁) rest
  have hthree := hscanned₂.opened (by rw [htokens₁]; simp) hopens (by simp [hkind]) (by simp [hkind])
  have hpassed : pre ++ [sec.keyword] ++ sec.beforeOpening ++ [sec.opening] = pre ++ sec.head := by
    rw [Section.head]
    simp [Section.beforeOpening]
  rw [hpassed] at hthree
  refine ⟨_, hthree, Traversal.scopes_note _ _, fun u hu => ?_, ?_⟩
  · rw [Traversal.pending_note] at hu
    cases hu
  · rw [Traversal.previous_note (isIgnorable_of_isPunct sec.opening_isPunct), hkind]
    simp

/-- The block of a section begins where an item may begin. -/
theorem boundary_head (sec : Section) : Boundary (pre ++ sec.head) := by
  rw [Section.head, ← List.append_assoc]
  refine boundary_of_isPunct sec.opening_isPunct ?_
  split <;> simp

/-- Position of the token that opens the block of a section. -/
theorem index_opening {sec : Section} (hnumbered : Numbered 0 (pre ++ (sec.head ++ rest))) :
    sec.opening.index = ((pre ++ sec.head).length : Int) - 1 := by
  let front := sec.keyword :: sec.before.tokens ++ (sec.name.map QualifiedName.tokens).getD [] ++
    sec.after.tokens
  have hhead : sec.head = front ++ [sec.opening] := rfl
  have hsplit : pre ++ (sec.head ++ rest) = pre ++ front ++ sec.opening :: rest := by
    rw [hhead]
    simp
  rw [hsplit] at hnumbered
  rw [index_eq_length hnumbered, hhead]
  simp only [List.length_append, List.length_singleton]
  omega

/-- The closing brace of a section ends its scope, and the gap behind it changes nothing. -/
theorem sectionClosing (sec : Section) {ending : Token × Gap} (hclosing : sec.closing = some ending)
    {file : Scope} {tag : Token} (h : Scanned tokens pre s listed passes)
    (htokens : tokens = pre ++ (ending.1 :: ending.2.tokens ++ rest))
    (hs : Idle s [(sec.scope tag).reopen, file.reopen]) :
    ∃ s', Scanned tokens (pre ++ ending.1 :: ending.2.tokens) s' (listed ++ [sec.scope tag]) passes ∧
      Idle s' [file.reopen] := by
  have hlast : (sec.scope tag).last = some ending.1.index := by simp [Section.scope, hclosing]
  obtain ⟨s', hscanned, hidle⟩ := h.closing (htokens : tokens = pre ++ ending.1 :: _)
    (sec.closing_isPunct ending hclosing) hs.scopes hlast (isListed_section tag sec) hs.pending
  have htokens₁ : tokens = pre ++ [ending.1] ++ (ending.2.tokens ++ rest) := by
    rw [htokens]
    simp
  have hgap := hscanned.gap htokens₁ (by rw [hidle.scopes]; exact List.cons_ne_nil _ _)
  refine ⟨s', ?_, hidle⟩
  rwa [List.append_assoc, List.singleton_append] at hgap

/-- A section is found as its items and its scope. -/
theorem oneSection (sec : Section) {file : Scope} {tag : Token} (hfile : file.owner = some tag)
    (hbraceless : file.braceless = false) (h : Between tokens pre file listed passes)
    (hnumbered : Numbered 0 tokens) (htokens : tokens = pre ++ (sec.tokens ++ rest)) :
    Between tokens (pre ++ sec.tokens) file (listed ++ sectionScopes tag sec)
      (passes ++ sectionPasses tag sec) := by
  let closing := (sec.closing.map fun ending => ending.1 :: ending.2.tokens).getD []
  have htokens₀ : tokens = pre ++ (sec.head ++ (sec.block.tokens ++ (closing ++ rest))) := by
    rw [htokens, Section.tokens]
    simp [closing]
  have hpassed : pre ++ sec.tokens = pre ++ sec.head ++ sec.block.tokens ++ closing := by
    rw [Section.tokens]
    simp [closing]
  obtain ⟨s₁, hscanned₁, hidle₁⟩ := sectionHead sec hfile hbraceless h hnumbered htokens₀
  have htokens₁ : tokens = pre ++ sec.head ++ (sec.block.tokens ++ (closing ++ rest)) := by
    rw [htokens₀]
    simp
  obtain ⟨s₂, hscanned₂, hidle₂⟩ := hscanned₁.block sec.block sec.space hnumbered htokens₁ hidle₁
    (home_section tag sec file) (boundary_head sec)
  rw [hpassed, sectionScopes, ← List.append_assoc]
  cases hclosing : sec.closing with
  | none =>
    -- The scope stays open, and would close before the next token.
    have hnil : closing = [] := by simp [closing, hclosing]
    have hindex : sec.opening.index = ((pre ++ sec.head).length : Int) - 1 :=
      index_opening (htokens₀ ▸ hnumbered)
    have hlast : (sec.scope tag).last =
        some ((((pre ++ sec.head ++ sec.block.tokens).length : Nat) : Int) - 1) := by
      simp only [Section.scope, hclosing, Option.map_none, Option.getD_none, hindex,
        List.length_append]
      congr 1
      omega
    have hopen : (sec.scope tag).braceless = true := by simp [Section.scope, hclosing]
    rw [hnil, List.append_nil]
    exact ⟨s₂, .inr ⟨sec.scope tag, _, rfl, hscanned₂, hidle₂, hopen, isListed_section tag sec, hlast⟩⟩
  | some ending =>
    have hsome : closing = ending.1 :: ending.2.tokens := by simp [closing, hclosing]
    rw [hsome] at htokens₁ ⊢
    rw [← List.append_assoc] at htokens₁
    obtain ⟨s', hscanned, hidle⟩ := hscanned₂.sectionClosing sec hclosing htokens₁ hidle₂
    exact ⟨s', .inl ⟨hscanned, hidle⟩⟩

/-- Sections are found one after the other. -/
theorem sections (secs : List Section) {file : Scope} {tag : Token} (hfile : file.owner = some tag)
    (hbraceless : file.braceless = false) (h : Between tokens pre file listed passes)
    (hnumbered : Numbered 0 tokens)
    (htokens : tokens = pre ++ (secs.flatMap Section.tokens ++ rest)) :
    Between tokens (pre ++ secs.flatMap Section.tokens) file
      (listed ++ secs.flatMap (sectionScopes tag)) (passes ++ secs.flatMap (sectionPasses tag)) := by
  induction secs generalizing pre listed passes with
  | nil => simpa using h
  | cons sec secs ih =>
    have hone := oneSection sec hfile hbraceless h hnumbered
      (by rw [htokens, List.flatMap_cons, List.append_assoc])
    have hmore := ih hone (by rw [htokens]; simp)
    simpa using hmore

end Scanned

/-! ## Whole programs -/

namespace Program

variable (p : Program)

/-- The scopes that are found of a program, in the order in which they close. -/
def listed : List Scope :=
  (p.block.placed "" p.scope).flatMap Placed.scopes ++
    p.sections.flatMap (Scanned.sectionScopes p.openTag)

theorem index_openTag (hnumbered : Numbered 0 p.tokens) : p.openTag.index = 0 := hnumbered.1

theorem last_scope (hnumbered : Numbered 0 p.tokens) :
    p.scope.last = some ((p.tokens.length : Int) - 1) := by
  rw [scope, p.index_openTag hnumbered, Int.zero_add]

/-- The open tag opens the scope of the file. -/
theorem opening (rest : List Token) : ∃ s, Scanned (p.openTag :: rest) [p.openTag] s [] [] ∧
    Idle s [p.scope.reopen] := by
  have hprocess : Traversal.process {} p.openTag rest =
      ({ scopes := [p.scope.reopen] }, [.opened p.scope.reopen]) := by
    simp only [Traversal.process, p.openTag_kind]
    rfl
  have hone := (Scanned.start (p.openTag :: rest)).opened rfl hprocess (by simp [p.openTag_kind])
    (by simp [p.openTag_kind])
  refine ⟨_, hone, Traversal.scopes_note _ _, fun u hu => ?_, ?_⟩
  · rw [Traversal.pending_note] at hu
    cases hu
  · rw [Traversal.previous_note (by simp [isIgnorable, p.openTag_kind, TokenKind.isIgnorable]),
      p.openTag_kind]
    simp

/-- The file is where its items stand. -/
theorem home : Home p.scope [] :=
  ⟨rfl, .inl ⟨by simp [scope, Scope.ownerKind?, p.openTag_kind], rfl⟩⟩

theorem boundary_openTag : Boundary [p.openTag] := ⟨[], p.openTag, rfl, .inr ⟨rfl, p.openTag_kind⟩⟩

/-- What is found until the end of a program that stands at the beginning of a stream. -/
theorem between_of_append {rest : List Token} (hnumbered : Numbered 0 (p.tokens ++ rest)) :
    Scanned.Between (p.tokens ++ rest) p.tokens p.scope p.listed (p.placed.flatMap Placed.passes) := by
  obtain ⟨s₀, hone, hidle⟩ := p.opening (p.block.tokens ++ (p.sections.flatMap Section.tokens ++ rest))
  have htokens : p.tokens ++ rest = [p.openTag] ++ (p.block.tokens ++
      (p.sections.flatMap Section.tokens ++ rest)) := by
    simp [tokens]
  rw [← List.singleton_append, ← htokens] at hone
  obtain ⟨s₁, hscanned₁, hidle₁⟩ := hone.block p.block "" hnumbered htokens hidle p.home
    p.boundary_openTag
  have hmore := Scanned.sections p.sections (rfl : p.scope.owner = some p.openTag) rfl
    ⟨s₁, .inl ⟨hscanned₁, hidle₁⟩⟩ hnumbered (by rw [htokens, List.append_assoc])
  have hend : [p.openTag] ++ p.block.tokens ++ p.sections.flatMap Section.tokens = p.tokens := rfl
  have hpasses : p.placed.flatMap Placed.passes = (p.block.placed "" p.scope).flatMap Placed.passes ++
      p.sections.flatMap (Scanned.sectionPasses p.openTag) := by
    rw [placed, List.flatMap_append, List.flatMap_assoc]
    rfl
  simp only [List.nil_append] at hmore
  rw [hend] at hmore
  rw [hpasses]
  exact hmore

/-- What is found until the end of a program. -/
theorem between (hnumbered : Numbered 0 p.tokens) :
    Scanned.Between p.tokens p.tokens p.scope p.listed (p.placed.flatMap Placed.passes) := by
  have hend : p.tokens ++ [] = p.tokens := List.append_nil _
  rw [← hend] at hnumbered
  have hbetween := p.between_of_append hnumbered
  rwa [hend] at hbetween

end Program
end Reflection
