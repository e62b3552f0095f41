import Reflection.Proofs.Program.Reading
import Reflection.Proofs.Scope.Nesting

/-!
# Passing over tokens

A scan takes little from the events of a traversal: the scopes that close and belong to a declaration
that it files, and the keywords of statements outside of functions and structures. How these grow as
the traversal passes one more token depends on the class of the token.

## Main definitions

* `listedScopes`, `statementPasses`: what a scan takes from events.
* `Scanned`: the state of a traversal before the rest of a stream, with what was found until then.

## Main statements

* `Scanned.plain`: tokens that change nothing.
* `Scanned.body`: what stands in a block changes nothing either.
-/
namespace Reflection

open Token

/-- The scope belongs to a declaration, and not to a method. -/
def Scope.isListed (s : Scope) : Bool :=
  (ownerDeclaration? s).isSome &&
    !(s.ownerKind? == some .functionKeyword && s.parentKind?.any ownsMethods)

/-- The scopes that close in a list of events and belong to declarations of a file. -/
def listedScopes (events : List Event) : List Scope := (closedScopes events).filter Scope.isListed

/-- The keywords of statements of a file that a list of events passes, with the scopes around. -/
def statementPasses (tokens : List Token) (events : List Event) : List (Token × Option Scope) :=
  events.filterMap fun
    | .passed t scope =>
      if isStatementKeyword tokens t && isFileLevel scope then some (t, scope) else none
    | _ => none

theorem listedScopes_append (xs ys : List Event) :
    listedScopes (xs ++ ys) = listedScopes xs ++ listedScopes ys := by
  simp only [listedScopes, closedScopes, List.filterMap_append, List.filter_append]

theorem statementPasses_append (tokens : List Token) (xs ys : List Event) :
    statementPasses tokens (xs ++ ys) = statementPasses tokens xs ++ statementPasses tokens ys :=
  List.filterMap_append

theorem statementPasses_passed (tokens : List Token) (t : Token) (scope : Option Scope) :
    statementPasses tokens [.passed t scope] =
      if isStatementKeyword tokens t && isFileLevel scope then [(t, scope)] else [] := by
  simp only [statementPasses, List.filterMap_cons, List.filterMap_nil]
  split <;> simp_all

/-- Such a keyword begins a statement, in a scope of the file. -/
theorem mem_statementPasses {tokens : List Token} {events : List Event}
    {pass : Token × Option Scope} (h : pass ∈ statementPasses tokens events) :
    .passed pass.1 pass.2 ∈ events ∧ isStatementKeyword tokens pass.1 = true ∧
      isFileLevel pass.2 = true := by
  obtain ⟨e, he, hpass⟩ := List.mem_filterMap.mp h
  cases e with
  | passed t scope =>
    dsimp only at hpass
    split at hpass
    · rename_i hkeyword
      cases hpass
      exact ⟨he, Bool.and_eq_true_iff.mp hkeyword⟩
    · cases hpass
  | _ => cases hpass

theorem Token.kind_of_isPlain {t : Token} (h : t.isPlain = true) : t.kind.isDeclaration = false := by
  simp only [isPlain, Bool.and_eq_true, Bool.not_eq_true'] at h
  exact h.1.1.1

theorem isPlain_of_ignorable {t : Token} (h : t.isIgnorable = true) : t.isPlain = true := by
  cases hkind : t.kind <;>
    simp_all [isIgnorable, TokenKind.isIgnorable, isPlain, TokenKind.isDeclaration, isPunct]

theorem isPlain_of_isIdentifier {t : Token} (h : t.isIdentifier = true) : t.isPlain = true := by
  have hkind := (Bool.and_eq_true_iff.mp h).1
  simp only [Bool.or_eq_true, beq_iff_eq] at hkind
  rcases hkind with hkind | hkind <;> simp [isPlain, hkind, TokenKind.isDeclaration, isPunct]

/-- A keyword of no statement. -/
theorem isStatementKeyword_of_ne {tokens : List Token} {t : Token} (huse : t.kind ≠ .useKeyword)
    (hconst : t.kind ≠ .constKeyword) : isStatementKeyword tokens t = false := by
  simp [isStatementKeyword, huse, hconst]

theorem isStatementKeyword_of_isPlain {tokens : List Token} {t : Token} (h : t.isPlain = true) :
    isStatementKeyword tokens t = false := by
  have hkind := kind_of_isPlain h
  refine isStatementKeyword_of_ne (fun huse => ?_) (fun hconst => ?_)
  · rw [huse] at hkind
    cases hkind
  · rw [hconst] at hkind
    cases hkind

/-! ## Positions -/

theorem index_eq_length {pre rest : List Token} {t : Token} (h : Numbered 0 (pre ++ t :: rest)) :
    t.index = pre.length := by
  have := ((numbered_append 0 pre (t :: rest)).mp h).2.1
  omega

theorem take_index {pre rest : List Token} {t : Token} (h : Numbered 0 (pre ++ t :: rest)) :
    (pre ++ t :: rest).take t.index.toNat = pre := by
  rw [index_eq_length h, Int.toNat_natCast, List.take_left]

theorem tokensBefore_eq {pre rest : List Token} {t : Token} (h : Numbered 0 (pre ++ t :: rest)) :
    tokensBefore (pre ++ t :: rest) t = pre.reverse := by
  rw [tokensBefore, take_index h]

theorem tokensAfter_eq {pre rest : List Token} {t : Token} (h : Numbered 0 (pre ++ t :: rest)) :
    tokensAfter (pre ++ t :: rest) t = rest := by
  have hlength : (t.index + 1).toNat = (pre ++ [t]).length := by
    rw [index_eq_length h, List.length_append, List.length_singleton]
    omega
  have hsplit : pre ++ t :: rest = pre ++ [t] ++ rest := List.append_cons pre t rest
  rw [tokensAfter, hlength, hsplit, List.drop_left]

/-! ## Processing one token -/

namespace Traversal

variable {s : Traversal} {t : Token} {rest : List Token}

/-- The state with a token as the last one passed. -/
def note (s : Traversal) (t : Token) : Traversal :=
  if t.isIgnorable then s else { s with previous := some t.kind }

@[simp] theorem scopes_note (s : Traversal) (t : Token) : (s.note t).scopes = s.scopes := by
  simp only [note]
  split <;> rfl

@[simp] theorem pending_note (s : Traversal) (t : Token) : (s.note t).pending = s.pending := by
  simp only [note]
  split <;> rfl

theorem note_of_ignorable (h : t.isIgnorable = true) : s.note t = s := if_pos h

theorem previous_note (h : t.isIgnorable = false) : (s.note t).previous = some t.kind := by
  simp [note, h]

theorem step_eq (s : Traversal) (t : Token) (rest : List Token) :
    s.step t rest =
      ((s.process t rest).1.note t,
        (s.process t rest).2 ++ [.passed t (s.process t rest).1.current?]) := by
  simp only [step, note, current?]
  split <;> rfl

theorem process_plain (h : t.isPlain = true) (hs : s.scopes ≠ []) :
    s.process t rest = (s, []) := by
  have hopen : s.scopes.isEmpty = false := by simpa using hs
  simp only [isPlain, isPunct, Bool.and_eq_true, Bool.not_eq_true', Bool.and_eq_false_iff,
    beq_eq_false_iff_ne] at h
  cases hkind : t.kind <;> simp_all [process, TokenKind.isDeclaration]

theorem process_statement (h : t.kind = .useKeyword ∨ t.kind = .constKeyword) :
    s.process t rest = (s, []) := by
  rcases h with h | h <;> simp [process, h]

theorem process_opening (h : t.isPunct "\x7b" = true) :
    s.process t rest = s.openScope t.index false := by
  simp [process, kind_of_isPunct h, text_of_isPunct h]

theorem process_closing (h : t.isPunct "\x7d" = true) :
    s.process t rest = s.closeScope t.index := by
  simp [process, kind_of_isPunct h, text_of_isPunct h]

theorem process_semicolon (h : t.isPunct ";" = true) : s.process t rest = s.terminate t.index := by
  simp [process, kind_of_isPunct h, text_of_isPunct h]

/-- The keyword of a function or a structure waits for its block. -/
theorem process_keyword {kind : DeclarationKind} (h : DeclarationKind.ofOwner? t.kind = some kind)
    (hkind : kind ≠ .namespaceKind) (hprevious : s.previous ≠ some .doubleColon)
    (howns : (s.current?.bind Scope.ownerKind?).any ownsFunctions = true) :
    s.process t rest = ({ s with pending := some t }, []) := by
  cases ht : t.kind <;> simp_all [process, DeclarationKind.ofOwner?]

end Traversal

/-! ## What was found until now -/

/-- The traversal of a stream has passed `pre` and is in a state, having found scopes and keywords;
every closing brace had its partner. -/
def Scanned (tokens pre : List Token) (s : Traversal) (listed : List Scope)
    (passes : List (Token × Option Scope)) : Prop :=
  ∃ rest events, tokens = pre ++ rest ∧ Traversal.run rest {} pre = (s, events) ∧
    listedScopes events = listed ∧ statementPasses tokens events = passes ∧
    events.filterMap Event.warning? = []

namespace Scanned

variable {tokens pre rest : List Token} {s s' : Traversal} {listed : List Scope}
  {passes : List (Token × Option Scope)} {t : Token}

theorem start (tokens : List Token) : Scanned tokens [] {} [] [] :=
  ⟨tokens, [], rfl, rfl, rfl, rfl, rfl⟩

/-- One more token adds what its events hold. -/
theorem step (h : Scanned tokens pre s listed passes) (htokens : tokens = pre ++ t :: rest)
    {events : List Event} (hprocess : s.process t rest = (s', events))
    (hwarning : events.filterMap Event.warning? = []) :
    Scanned tokens (pre ++ [t]) (s'.note t) (listed ++ listedScopes events)
      (passes ++ statementPasses tokens (events ++ [.passed t s'.current?])) := by
  obtain ⟨rest', before, htokens', hrun, hlisted, hpasses, hbefore⟩ := h
  obtain rfl : rest' = t :: rest := List.append_cancel_left (htokens'.symm.trans htokens)
  refine ⟨rest, before ++ (events ++ [.passed t s'.current?]), by rw [htokens, List.append_cons], ?_,
    ?_, ?_, ?_⟩
  · rw [Traversal.run_append, List.cons_append, List.nil_append, hrun, Traversal.run_cons,
      Traversal.step_eq]
    simp only [List.nil_append, hprocess, Traversal.run_nil, List.append_nil]
  · rw [listedScopes_append, hlisted, listedScopes_append]
    simp [listedScopes, closedScopes]
  · rw [statementPasses_append, hpasses]
  · simp [hbefore, hwarning, Event.warning?]

/-- A token without events that is no keyword of a statement of the file. -/
theorem keep (h : Scanned tokens pre s listed passes) (htokens : tokens = pre ++ t :: rest)
    (hprocess : s.process t rest = (s', []))
    (hpass : (isStatementKeyword tokens t && isFileLevel s'.current?) = false) :
    Scanned tokens (pre ++ [t]) (s'.note t) listed passes := by
  have hstep := h.step htokens hprocess rfl
  rw [List.nil_append, statementPasses_passed, hpass] at hstep
  simpa [listedScopes, closedScopes] using hstep

/-- The keyword of a statement of the file. -/
theorem statement (h : Scanned tokens pre s listed passes) (htokens : tokens = pre ++ t :: rest)
    (hprocess : s.process t rest = (s, []))
    (hpass : (isStatementKeyword tokens t && isFileLevel s.current?) = true) :
    Scanned tokens (pre ++ [t]) (s.note t) listed (passes ++ [(t, s.current?)]) := by
  have hstep := h.step htokens hprocess rfl
  rw [List.nil_append, statementPasses_passed, hpass] at hstep
  simpa [listedScopes, closedScopes] using hstep

/-- A token at which a scope opens. -/
theorem opened (h : Scanned tokens pre s listed passes) (htokens : tokens = pre ++ t :: rest)
    {scope : Scope} (hprocess : s.process t rest = (s', [.opened scope]))
    (huse : t.kind ≠ .useKeyword) (hconst : t.kind ≠ .constKeyword) :
    Scanned tokens (pre ++ [t]) (s'.note t) listed passes := by
  have hstep := h.step htokens hprocess rfl
  simpa [statementPasses, isStatementKeyword_of_ne huse hconst, listedScopes, closedScopes]
    using hstep

/-- A token at which a scope closes. -/
theorem closed (h : Scanned tokens pre s listed passes) (htokens : tokens = pre ++ t :: rest)
    {scope : Scope} (hprocess : s.process t rest = (s', [.closed scope]))
    (huse : t.kind ≠ .useKeyword) (hconst : t.kind ≠ .constKeyword) :
    Scanned tokens (pre ++ [t]) (s'.note t) (listed ++ [scope].filter Scope.isListed) passes := by
  have hstep := h.step htokens hprocess rfl
  simpa [statementPasses, isStatementKeyword_of_ne huse hconst, listedScopes, closedScopes]
    using hstep

/-- Plain tokens change neither the scopes nor the declaration that waits. -/
theorem plain {ts : List Token} (h : Scanned tokens pre s listed passes)
    (htokens : tokens = pre ++ (ts ++ rest)) (hplain : ∀ t ∈ ts, t.isPlain = true)
    (hs : s.scopes ≠ []) :
    ∃ s', Scanned tokens (pre ++ ts) s' listed passes ∧ s'.scopes = s.scopes ∧
      s'.pending = s.pending := by
  induction ts generalizing pre s with
  | nil => exact ⟨s, by rwa [List.append_nil], rfl, rfl⟩
  | cons t ts ih =>
    have ht := hplain t (List.mem_cons_self ..)
    have hpass : (isStatementKeyword tokens t && isFileLevel s.current?) = false := by
      rw [isStatementKeyword_of_isPlain ht, Bool.false_and]
    have hone := h.keep htokens (Traversal.process_plain ht hs) hpass
    obtain ⟨s', hscanned, hscopes, hpending⟩ := ih hone (by rw [htokens]; simp)
      (fun u hu => hplain u (List.mem_cons_of_mem t hu)) (by simpa using hs)
    refine ⟨s', ?_, ?_, ?_⟩
    · rwa [List.append_assoc, List.singleton_append] at hscanned
    · rw [hscopes, Traversal.scopes_note]
    · rw [hpending, Traversal.pending_note]

/-- A gap changes nothing. -/
theorem gap (h : Scanned tokens pre s listed passes) {g : Gap}
    (htokens : tokens = pre ++ (g.tokens ++ rest)) (hs : s.scopes ≠ []) :
    Scanned tokens (pre ++ g.tokens) s listed passes := by
  obtain ⟨ts, hignorable⟩ := g
  dsimp only at htokens ⊢
  induction ts generalizing pre with
  | nil => rwa [List.append_nil]
  | cons t ts ih =>
    have ht := hignorable t (List.mem_cons_self ..)
    have hpass : (isStatementKeyword tokens t && isFileLevel s.current?) = false := by
      rw [isStatementKeyword_of_isPlain (isPlain_of_ignorable ht), Bool.false_and]
    have hone := h.keep htokens (Traversal.process_plain (isPlain_of_ignorable ht) hs) hpass
    rw [Traversal.note_of_ignorable ht] at hone
    have hrest := ih hone (fun u hu => hignorable u (List.mem_cons_of_mem t hu))
      (by rw [htokens]; simp)
    rwa [List.append_assoc, List.singleton_append] at hrest

/-! ## Blocks -/

/-- The scope is a block inside of a file: the keywords of statements in it are none of the file, and
it belongs neither to a namespace nor to an open tag. -/
def Inner (s : Scope) : Prop :=
  isFileLevel (some s) = false ∧ s.ownerKind? ≠ some .openTag ∧ s.ownerKind? ≠ some .namespaceKeyword

/-- Only a method can wait for its block in a scope. -/
def AwaitsMethod (s : Traversal) (scope : Scope) : Prop :=
  ∀ t ∈ s.pending, t.kind = .functionKeyword ∧ scope.ownerKind?.any ownsMethods = true

/-- Other tokens than braces open and close nothing in a block. -/
theorem process_inner {top : Scope} {outer : List Scope} (hkind : t.kind.isStructural = false)
    (hopening : t.isPunct "\x7b" = false) (hclosing : t.isPunct "\x7d" = false)
    (hs : s.scopes = top :: outer) (htop : Inner top) (hpending : AwaitsMethod s top) :
    ∃ s', s.process t rest = (s', []) ∧ s'.scopes = s.scopes ∧ AwaitsMethod s' top := by
  have hsame : s.process t rest = (s, []) →
      ∃ s', s.process t rest = (s', []) ∧ s'.scopes = s.scopes ∧ AwaitsMethod s' top :=
    fun h => ⟨s, h, rfl, hpending⟩
  have hopen : s.scopes ≠ [] := by rw [hs]; exact List.cons_ne_nil _ _
  by_cases hplain : t.isPlain = true
  · exact hsame (Traversal.process_plain hplain hopen)
  by_cases hsemicolon : t.isPunct ";" = true
  · rw [Traversal.process_semicolon hsemicolon]
    simp only [Traversal.terminate]
    cases hwaiting : s.pending with
    | none => exact ⟨s, rfl, rfl, hpending⟩
    | some u =>
      have hu := (hpending u hwaiting).1
      refine ⟨{ s with pending := none }, by simp [hu], rfl, fun t ht => by cases ht⟩
  by_cases hstatement : t.kind = .useKeyword ∨ t.kind = .constKeyword
  · exact hsame (Traversal.process_statement hstatement)
  have hfunction : t.kind = .functionKeyword := by
    cases ht : t.kind <;>
      simp_all [isPlain, TokenKind.isStructural, TokenKind.isDeclaration]
  by_cases howns : (s.current?.bind Scope.ownerKind?).any Traversal.ownsFunctions = true
  · refine ⟨{ s with pending := some t }, by simp [Traversal.process, hfunction, howns], rfl, ?_⟩
    intro u hu
    cases hu
    refine ⟨hfunction, ?_⟩
    simp only [Traversal.current?, hs, List.head?_cons, Option.bind_some] at howns
    obtain ⟨-, hnotTag, hnotNamespace⟩ := htop
    cases howner : top.ownerKind? with
    | none => rw [howner] at howns; cases howns
    | some kind =>
      rw [howner] at howns hnotTag hnotNamespace
      cases kind <;> simp_all [Traversal.ownsFunctions, ownsMethods]
  · exact hsame (by simp [Traversal.process, hfunction, howns])

/-- The scope belongs to nothing or to a method. -/
def Nested (scope : Scope) : Prop :=
  scope.ownerKind? = none ∨
    scope.ownerKind? = some .functionKeyword ∧ scope.parentKind?.any ownsMethods = true

/-- A scope that opens in a block. -/
def innerScope (s : Traversal) (index : Int) : Scope where
  level := s.scopes.length
  parent := s.current?.bind Scope.owner
  owner := s.pending
  first := index

theorem nested_innerScope {top : Scope} {outer : List Scope} (hs : s.scopes = top :: outer)
    (hpending : AwaitsMethod s top) (index : Int) : Nested (innerScope s index) := by
  cases hwaiting : s.pending with
  | none => exact .inl (by simp [innerScope, Scope.ownerKind?, hwaiting])
  | some u =>
    obtain ⟨hu, hparent⟩ := hpending u hwaiting
    refine .inr ⟨by simp [innerScope, Scope.ownerKind?, hwaiting, hu], ?_⟩
    simpa [innerScope, Scope.parentKind?, Scope.ownerKind?, Traversal.current?, hs] using hparent

theorem Nested.inner {scope : Scope} (h : Nested scope) (hlevel : scope.level ≠ 0) :
    Inner scope := by
  rcases h with howner | ⟨howner, -⟩ <;> simp [Inner, isFileLevel, hlevel, howner]

/-- Neither a method nor a block without owner is listed. -/
theorem Nested.isListed_close {scope : Scope} (h : Nested scope) (last : Int) :
    (scope.close last).isListed = false := by
  have hkind : (scope.close last).ownerKind? = scope.ownerKind? := rfl
  have hparent : (scope.close last).parentKind? = scope.parentKind? := rfl
  rcases h with howner | ⟨howner, hmethod⟩
  · simp [Scope.isListed, ownerDeclaration?, hkind, howner]
  · simp [Scope.isListed, hkind, howner, hparent, hmethod]

/-- Nothing waits for its block in a method. -/
theorem Nested.pending_eq_none {scope : Scope} (h : Nested scope) (hpending : AwaitsMethod s scope) :
    s.pending = none := by
  cases hwaiting : s.pending with
  | none => rfl
  | some u =>
    have hmethod := (hpending u hwaiting).2
    rcases h with howner | ⟨howner, -⟩
    · rw [howner] at hmethod
      cases hmethod
    · rw [howner] at hmethod
      cases hmethod

/-- What stands in a block is not found, and its scopes close. -/
theorem body {ts : List Token} (hts : Balanced ts) {top : Scope} {outer : List Scope}
    (h : Scanned tokens pre s listed passes) (htokens : tokens = pre ++ (ts ++ rest))
    (hs : s.scopes = top :: outer) (htop : Inner top) (hpending : AwaitsMethod s top) :
    ∃ s', Scanned tokens (pre ++ ts) s' listed passes ∧ s'.scopes = top :: outer ∧
      AwaitsMethod s' top := by
  induction hts generalizing pre rest s top outer with
  | nil => exact ⟨s, by rwa [List.append_nil], hs, hpending⟩
  | @other t ts hkind hopening hclosing hts ih =>
    obtain ⟨s₁, hprocess, hscopes, hpending₁⟩ :=
      process_inner hkind hopening hclosing hs htop hpending
    have hpass : (isStatementKeyword tokens t && isFileLevel s₁.current?) = false := by
      rw [Traversal.current?, hscopes, hs, List.head?_cons, htop.1, Bool.and_false]
    have hone := h.keep htokens hprocess hpass
    have htokens' : tokens = pre ++ [t] ++ (ts ++ rest) := by rw [htokens]; simp
    obtain ⟨s', hscanned, hscopes', hpending'⟩ := ih hone htokens'
      (by rw [Traversal.scopes_note, hscopes, hs]) htop
      (fun u hu => hpending₁ u (by rwa [Traversal.pending_note] at hu))
    refine ⟨s', ?_, hscopes', hpending'⟩
    rwa [List.append_assoc, List.singleton_append] at hscanned
  | @block opening closing inner ts hopening hinner hclosing hts ihinner ihts =>
    have hkind := kind_of_isPunct hopening
    have hkind' := kind_of_isPunct hclosing
    have hnested := nested_innerScope hs hpending opening.index
    have hinside := hnested.inner (by simp [innerScope, hs])
    have hone := h.opened htokens (Traversal.process_opening hopening) (by simp [hkind])
      (by simp [hkind])
    have htokens₁ : tokens = pre ++ [opening] ++ (inner ++ (closing :: (ts ++ rest))) := by
      rw [htokens]
      simp
    obtain ⟨s₁, hscanned₁, hscopes₁, hpending₁⟩ := ihinner hone htokens₁
      (Traversal.scopes_note _ _) hinside
      (fun u hu => by rw [Traversal.pending_note] at hu; cases hu)
    have hclose : s₁.process closing (ts ++ rest) = ({ s₁ with scopes := s.scopes },
        [.closed ((innerScope s opening.index).close closing.index)]) := by
      rw [Traversal.process_closing hclosing, Traversal.closeScope, hscopes₁]
      rfl
    have hunlisted : [(innerScope s opening.index).close closing.index].filter Scope.isListed = [] := by
      simp [hnested.isListed_close]
    have htwo := hscanned₁.closed (by rw [htokens₁]; simp) hclose (by simp [hkind'])
      (by simp [hkind'])
    rw [hunlisted, List.append_nil] at htwo
    have htokens₂ : tokens = pre ++ [opening] ++ inner ++ [closing] ++ (ts ++ rest) := by
      rw [htokens]
      simp
    obtain ⟨s', hscanned', hscopes', hpending'⟩ := ihts htwo htokens₂
      ((Traversal.scopes_note _ _).trans hs) htop
      (fun u hu => by
        rw [Traversal.pending_note, hnested.pending_eq_none hpending₁] at hu
        cases hu)
    refine ⟨s', ?_, hscopes', hpending'⟩
    simpa using hscanned'

end Scanned
end Reflection
