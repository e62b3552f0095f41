import Reflection.Proofs.Declaration.Splicing
import Reflection.Proofs.Scope.Keywords

/-!
# Between two statements

Where one statement has ended and the next one has not begun, nothing that was read so far depends on what
follows. Names and imports end at the latest at the last semicolon, brace or open tag.

## Main definitions

* `Bounded`: tokens that no name and no import goes over.
* `BetweenStatements`: where a statement of a file or of a namespace may begin.
* `ImportHead`: how an import statement begins.

## Main statements

* `nameAfter_bounded`, `readUse_bounded`: names and imports do not depend on what follows.
* `BetweenStatements.settled`: what keywords declare is settled between statements.
* `ImportHead.run_head`: what a traversal makes of the beginning of an import.
-/
namespace Reflection

open Reflection.Text Token

/-! ## Bounds -/

/-- A token at which a statement may have ended: an open tag, a semicolon or a brace. -/
def Token.bounds (t : Token) : Bool :=
  t.kind == .openTag || t.isPunct ";" || t.isPunct "\x7b" || t.isPunct "\x7d"

namespace Token

variable {t : Token}

theorem bounds_of_isPunct {text : String} (h : t.isPunct text = true)
    (htext : text = ";" ∨ text = "\x7b" ∨ text = "\x7d") : t.bounds = true := by
  rcases htext with rfl | rfl | rfl <;> simp [bounds, h]

/-- Such a token is an open tag or punctuation, and no comma or ampersand. -/
theorem kind_of_bounds (h : t.bounds = true) : t.kind = .openTag ∨
    t.kind = .punctuation ∧ (t.text = ";" ∨ t.text = "\x7b" ∨ t.text = "\x7d") := by
  simp only [bounds, isPunct, Bool.or_eq_true, Bool.and_eq_true, beq_iff_eq] at h
  rcases h with ((hkind | ⟨hkind, htext⟩) | ⟨hkind, htext⟩) | ⟨hkind, htext⟩ <;> simp [*]

theorem isIgnorable_of_bounds (h : t.bounds = true) : t.isIgnorable = false := by
  rcases kind_of_bounds h with hkind | ⟨hkind, -⟩ <;> simp [isIgnorable, hkind, TokenKind.isIgnorable]

theorem isIdentifier_of_bounds (h : t.bounds = true) : t.isIdentifier = false := by
  rcases kind_of_bounds h with hkind | ⟨hkind, -⟩ <;> simp [Token.isIdentifier, hkind]

theorem continuesName_of_bounds (h : t.bounds = true) (afterSeparator : Bool) (rest : List Token) :
    t.continuesName afterSeparator rest = false := by
  have hident := isIdentifier_of_bounds h
  rcases kind_of_bounds h with hkind | ⟨hkind, -⟩ <;> simp [continuesName, hkind, hident]

theorem isPunct_of_bounds (h : t.bounds = true) {text : String} (htext : text = "," ∨ text = "&") :
    t.isPunct text = false := by
  rcases kind_of_bounds h with hkind | ⟨hkind, hbound⟩
  · simp [isPunct, hkind]
  · rcases htext with rfl | rfl <;> rcases hbound with hbound | hbound | hbound <;>
      simp [isPunct, hkind, hbound]

theorem kind_ne_of_bounds (h : t.bounds = true) : t.kind.isDeclaration = false ∧
    t.kind ≠ .asKeyword ∧ t.kind ≠ .doubleColon := by
  rcases kind_of_bounds h with hkind | ⟨hkind, -⟩ <;> simp [hkind, TokenKind.isDeclaration]

end Token

/-- Some token of the list bounds statements. -/
def Bounded (ts : List Token) : Prop := ∃ t ∈ ts, t.bounds = true

namespace Bounded

variable {ts : List Token}

/-- The first token aside, if it is no bound. -/
theorem tail {t : Token} {rest : List Token} (h : Bounded (t :: rest)) (ht : t.bounds = false) :
    Bounded rest := by
  obtain ⟨u, hu, hbounds⟩ := h
  rcases List.mem_cons.mp hu with rfl | hu
  · rw [ht] at hbounds
    cases hbounds
  · exact ⟨u, hu, hbounds⟩

theorem ne_nil (h : Bounded ts) : ts ≠ [] := List.ne_nil_of_mem h.choose_spec.1

/-- No bound is passed over as a gap. -/
theorem skipIgnorable (h : Bounded ts) : Bounded (skipIgnorable ts) := by
  induction ts with
  | nil => exact h
  | cons t rest ih =>
    rw [Token.skipIgnorable, List.dropWhile_cons]
    split
    · rename_i hignorable
      refine ih (h.tail (Bool.eq_false_iff.mpr fun hbounds => ?_))
      rw [isIgnorable_of_bounds hbounds] at hignorable
      cases hignorable
    · exact h

theorem skipIgnorable_append (h : Bounded ts) (beyond : List Token) :
    Token.skipIgnorable (ts ++ beyond) = Token.skipIgnorable ts ++ beyond := by
  have hne : (Token.skipIgnorable ts).isEmpty = false := by simpa using h.skipIgnorable.ne_nil
  rw [Token.skipIgnorable, List.dropWhile_append, ← Token.skipIgnorable, hne]
  rfl

/-- A name ends before a bound. -/
theorem takeNameTokens (h : Bounded ts) (afterSeparator : Bool) :
    Bounded (takeNameTokens afterSeparator ts).2 ∧ ∀ beyond,
      Token.takeNameTokens afterSeparator (ts ++ beyond) =
        ((Token.takeNameTokens afterSeparator ts).1,
          (Token.takeNameTokens afterSeparator ts).2 ++ beyond) := by
  induction ts generalizing afterSeparator with
  | nil => exact absurd rfl h.ne_nil
  | cons t rest ih =>
    rw [Token.takeNameTokens]
    cases hgo : t.continuesName afterSeparator rest with
    | false =>
      refine ⟨h, fun beyond => ?_⟩
      have hstop : t.continuesName afterSeparator (rest ++ beyond) = false := by
        by_cases hbounds : t.bounds = true
        · exact continuesName_of_bounds hbounds _ _
        · obtain ⟨u, us, hrest⟩ :=
            List.exists_cons_of_ne_nil (h.tail (Bool.not_eq_true _ ▸ hbounds)).ne_nil
          rw [hrest] at hgo ⊢
          exact hgo
      rw [List.cons_append, Token.takeNameTokens, hstop]
      rfl
    | true =>
      have hbounds : t.bounds = false := by
        refine Bool.eq_false_iff.mpr fun hbounds => ?_
        rw [continuesName_of_bounds hbounds] at hgo
        cases hgo
      have hrest := h.tail hbounds
      obtain ⟨hleft, hmore⟩ := ih hrest (t.text == "\\")
      refine ⟨hleft, fun beyond => ?_⟩
      have hgo' : t.continuesName afterSeparator (rest ++ beyond) = true := by
        obtain ⟨u, us, hcons⟩ := List.exists_cons_of_ne_nil hrest.ne_nil
        rw [hcons] at hgo ⊢
        exact hgo
      rw [List.cons_append, Token.takeNameTokens, hgo', hmore beyond]
      rfl

end Bounded

variable {ts : List Token}

/-- The name after a keyword does not depend on what follows a bound. -/
theorem nameAfter_bounded (h : Bounded ts) (beyond : List Token) :
    nameAfter (ts ++ beyond) = nameAfter ts := by
  have htake {ts : List Token} (h : Bounded ts) (beyond : List Token) :
      (takeName (ts ++ beyond)).1 = (takeName ts).1 := by
    rw [takeName, (h.takeNameTokens false).2 beyond, takeName]
  have hskip := h.skipIgnorable
  rw [nameAfter, nameAfter, h.skipIgnorable_append]
  revert hskip
  generalize skipIgnorable ts = left
  intro hskip
  cases left with
  | nil => exact absurd rfl hskip.ne_nil
  | cons t rest =>
    simp only [List.cons_append]
    by_cases hand : t.isPunct "&" = true
    · have hrest : Bounded rest := hskip.tail <| Bool.eq_false_iff.mpr fun hbounds => by
        rw [isPunct_of_bounds hbounds (.inr rfl)] at hand
        cases hand
      rw [if_pos hand, if_pos hand, hrest.skipIgnorable_append, htake hrest.skipIgnorable]
    · rw [if_neg hand, if_neg hand, ← List.cons_append, htake hskip]

/-- The alias of an import ends before a bound. -/
theorem readAlias_bounded (line : Int) (name : String) (h : Bounded ts) (beyond : List Token) :
    (∃ fault, readAlias line name ts = .error fault ∧ readAlias line name (ts ++ beyond) = .error fault) ∨
    ∃ localName left, readAlias line name ts = .ok (localName, left) ∧ Bounded left ∧
      readAlias line name (ts ++ beyond) = .ok (localName, left ++ beyond) := by
  simp only [readAlias, h.skipIgnorable_append]
  have hskip := h.skipIgnorable
  revert hskip
  generalize skipIgnorable ts = left
  intro hskip
  cases left with
  | nil => exact absurd rfl hskip.ne_nil
  | cons t rest =>
    simp only [List.cons_append, List.head?_cons, Option.any_some, List.tail_cons]
    by_cases hrenamed : (t.kind == .asKeyword) = true
    swap
    · simp only [hrenamed]
      exact .inr ⟨_, _, rfl, hskip, rfl⟩
    · have hrest : Bounded rest := hskip.tail <| Bool.eq_false_iff.mpr fun hbounds =>
        (kind_ne_of_bounds hbounds).2.1 (beq_iff_eq.mp hrenamed)
      have halias := hrest.skipIgnorable
      simp only [hrenamed, if_true, hrest.skipIgnorable_append]
      revert halias
      generalize skipIgnorable rest = after
      intro halias
      cases after with
      | nil => exact absurd rfl halias.ne_nil
      | cons u after =>
        simp only [List.cons_append]
        cases hident : u.isIdentifier with
        | false => exact .inl ⟨_, rfl, rfl⟩
        | true =>
          have hafter : Bounded after := halias.tail <| Bool.eq_false_iff.mpr fun hbounds => by
            rw [isIdentifier_of_bounds hbounds] at hident
            cases hident
          exact .inr ⟨_, _, rfl, hafter.skipIgnorable, by simp [hafter.skipIgnorable_append]⟩

theorem useClauses_bounded (line : Int) (h : Bounded ts) (beyond : List Token) :
    useClauses line (ts ++ beyond) = useClauses line ts := by
  induction hlength : ts.length using Nat.strongRecOn generalizing ts with
  | _ n ih =>
  have htake := length_takeNameTokens false ts
  obtain ⟨hleft, hmore⟩ := h.takeNameTokens false
  rw [useClauses_first line (ts ++ beyond), useClauses_first line ts, hmore beyond]
  dsimp only
  generalize Name.relative (spelling (takeNameTokens false ts).1) = name
  split_ifs with hname
  · rfl
  · obtain ⟨fault, hread, hread'⟩ | ⟨localName, left, hread, hbounded, hread'⟩ :=
      readAlias_bounded line name hleft beyond
    · rw [hread, hread']
    · have hlength' := length_readAlias hread
      rw [hread, hread']
      cases left with
      | nil => exact absurd rfl hbounded.ne_nil
      | cons t after =>
        have hskip := length_skipIgnorable after
        simp only [List.length_cons] at hlength'
        simp only [List.cons_append, List.head?_cons, Option.any_some, List.tail_cons]
        by_cases hcomma : t.isPunct "," = true
        · have hafter : Bounded after := hbounded.tail <| Bool.eq_false_iff.mpr fun hbounds => by
            rw [isPunct_of_bounds hbounds (.inl rfl)] at hcomma
            cases hcomma
          simp only [hcomma, if_true, hafter.skipIgnorable_append,
            ih _ (by omega) hafter.skipIgnorable rfl]
        · simp only [hcomma, Bool.false_eq_true, if_false]

/-- The imports of a statement do not depend on what follows a bound. -/
theorem readUse_bounded (line : Int) (h : Bounded ts) (beyond : List Token) :
    readUse line (ts ++ beyond) = readUse line ts := by
  have hword : afterUseKind (ts ++ beyond) = afterUseKind ts ++ beyond ∧ Bounded (afterUseKind ts) := by
    have hskip := h.skipIgnorable
    rw [afterUseKind, afterUseKind, h.skipIgnorable_append]
    revert hskip
    generalize skipIgnorable ts = left
    intro hskip
    cases left with
    | nil => exact absurd rfl hskip.ne_nil
    | cons t rest =>
      simp only [List.cons_append]
      by_cases hkind : t.kind = .functionKeyword ∨ t.kind = .constKeyword
      · have hrest : Bounded rest := hskip.tail <| Bool.eq_false_iff.mpr fun hbounds => by
          have := (kind_ne_of_bounds hbounds).1
          rcases hkind with hkind | hkind <;> simp [hkind, TokenKind.isDeclaration] at this
        rw [if_pos hkind, if_pos hkind]
        exact ⟨hrest.skipIgnorable_append beyond, hrest.skipIgnorable⟩
      · rw [if_neg hkind, if_neg hkind]
        exact ⟨rfl, hskip⟩
  rw [readUse, hword.1, useClauses_bounded line hword.2, readUse]

/-! ## Between statements -/

/-- The kind of the last significant token is remembered. -/
theorem Traversal.previous_run {s : Traversal} (before ts beyond : List Token)
    (h : s.previous = (previousSignificant? before.reverse).map Token.kind) :
    (Traversal.run beyond s ts).1.previous =
      (previousSignificant? (before ++ ts).reverse).map Token.kind := by
  induction ts generalizing s before with
  | nil => rwa [List.append_nil]
  | cons t rest ih =>
    rw [Traversal.run_cons, List.append_cons]
    exact ih (before ++ [t]) (Traversal.previous_step h)

/-- A statement of a file or of a namespace may begin after these tokens. The last significant one of them
is a semicolon, a brace or an open tag, and no documentation follows it. Nothing waits for a block, the
innermost scope is that of the file or of a namespace, and no constant of the file is read past the
tokens. -/
structure BetweenStatements (front : List Token) : Prop where
  last : ∃ t, previousSignificant? front.reverse = some t ∧ t.bounds = true
  undocumented : docCommentBefore structureModifiers front.reverse = ""
  idle : (Traversal.run [] {} front).1.pending = none
  home : ∃ home outer, (Traversal.run [] {} front).1.scopes = home :: outer ∧ Home home outer
  constants : ∀ {pre rest t scope}, front = pre ++ t :: rest → t.kind = .constKeyword →
    followsUse pre = false → .passed t scope ∈ (Traversal.run [] {} front).2 →
    isFileLevel scope = true → ∀ beyond,
      SameConstants (readConst (-1) (-1) rest) (readConst (-1) (-1) (rest ++ beyond))

namespace BetweenStatements

variable {front : List Token} (h : BetweenStatements front)

include h

theorem selfContained : SelfContained front := by
  obtain ⟨t, hlast, hbounds⟩ := h.last
  intro u hu hkind
  rw [getLast?_significant, hlast] at hu
  cases hu
  have := (kind_ne_of_bounds hbounds).1
  simp [hkind, TokenKind.isDeclaration] at this

theorem followsUse_eq : followsUse front = false := by
  obtain ⟨t, hlast, hbounds⟩ := h.last
  have hkind := (kind_ne_of_bounds hbounds).1
  rw [followsUse, hlast, Option.any_some]
  refine beq_false_of_ne fun huse => ?_
  simp [huse, TokenKind.isDeclaration] at hkind

/-- The state after the tokens. -/
theorem exists_state : ∃ home outer previous,
    (Traversal.run [] {} front).1 = ⟨home :: outer, none, previous⟩ ∧ Home home outer ∧
      previous ≠ some .doubleColon := by
  have hidle := h.idle
  obtain ⟨home, outer, hscopes, hhome⟩ := h.home
  obtain ⟨t, hlast, hbounds⟩ := h.last
  have hprevious : (Traversal.run [] {} front).1.previous = some t.kind := by
    rw [Traversal.previous_run [] front [] rfl, List.nil_append, hlast]
    rfl
  revert hidle hscopes hprevious
  generalize (Traversal.run [] {} front).1 = s
  intro hidle hscopes hprevious
  obtain ⟨scopes, pending, previous⟩ := s
  cases hidle
  cases hscopes
  cases hprevious
  exact ⟨home, outer, some t.kind, rfl, hhome, by simp [(kind_ne_of_bounds hbounds).2.2]⟩

/-- Documentation that no modifier separates from a keyword is none either. -/
theorem docCommentBefore_eq {skipped : List String} (hskipped : skipped ∈ [[], structureModifiers]) :
    docCommentBefore skipped front.reverse = "" := by
  rcases List.mem_pair.mp hskipped with rfl | rfl
  · exact docCommentBefore_nil h.undocumented
  · exact h.undocumented

/-- The end of the last statement stands after every keyword. -/
theorem bounded {pre rest : List Token} {t : Token} (hfront : front = pre ++ t :: rest)
    (ht : t.kind.isDeclaration = true) : Bounded rest := by
  obtain ⟨u, hlast, hbounds⟩ := h.last
  have hsignificant : t.isIgnorable = false := by
    cases hkind : t.kind <;> simp_all [isIgnorable, TokenKind.isIgnorable, TokenKind.isDeclaration]
  have hsplit : front.reverse = rest.reverse ++ t :: pre.reverse := by simp [hfront]
  rw [hsplit, previousSignificant?, List.find?_append] at hlast
  cases hfound : rest.reverse.find? (!·.isIgnorable) with
  | some v =>
    rw [hfound, Option.some_or] at hlast
    cases hlast
    exact ⟨u, List.mem_reverse.mp (List.mem_of_find?_eq_some hfound), hbounds⟩
  | none =>
    rw [hfound, Option.none_or, List.find?_cons, hsignificant] at hlast
    cases hlast
    rw [(kind_ne_of_bounds hbounds).1] at ht
    cases ht

/-- What keywords declare is settled, whatever follows. -/
theorem settled {pre rest : List Token} {t : Token} (hfront : front = pre ++ t :: rest)
    (hconst : t.kind ≠ .constKeyword) (beyond : List Token) :
    ReadsAlike t.kind rest (rest ++ beyond) := by
  have hbounded := h.bounded hfront
  revert hbounded hconst
  generalize t.kind = kind
  intro hconst hbounded
  have himports (hkind : kind.isDeclaration = true) :
      SameImports (readUse (-1) rest) (readUse (-1) (rest ++ beyond)) := by
    rw [readUse_bounded (-1) (hbounded hkind)]
    exact ⟨rfl, rfl⟩
  cases kind with
  | useKeyword => exact himports rfl
  | constKeyword => exact absurd rfl hconst
  | namespaceKeyword | functionKeyword | interfaceKeyword | traitKeyword | classKeyword =>
    exact nameAfter_bounded (hbounded rfl) beyond
  | _ => trivial

/-- So it is the same whatever follows. -/
theorem readsAlike {pre rest : List Token} {t : Token} (hfront : front = pre ++ t :: rest)
    (hconst : t.kind ≠ .constKeyword) (beyond beyond' : List Token) :
    ReadsAlike t.kind (rest ++ beyond) (rest ++ beyond') :=
  (h.settled hfront hconst beyond).symm.trans (h.settled hfront hconst beyond')

theorem constantsAlike {pre rest : List Token} {t : Token} {scope : Option Scope}
    (hfront : front = pre ++ t :: rest) (hkind : t.kind = .constKeyword) (huse : followsUse pre = false)
    (hpassed : .passed t scope ∈ (Traversal.run [] {} front).2) (hlevel : isFileLevel scope = true)
    (beyond beyond' : List Token) : SameConstants (readConst (-1) (-1) (rest ++ beyond))
      (readConst (-1) (-1) (rest ++ beyond')) :=
  (h.constants hfront hkind huse hpassed hlevel beyond).symm.trans
    (h.constants hfront hkind huse hpassed hlevel beyond')

end BetweenStatements

/-! ## Splitting at a keyword -/

/-- A token of two stretches stands in one of them. -/
theorem split_append {xs ys pre rest : List Token} {t : Token} (h : xs ++ ys = pre ++ t :: rest) :
    (∃ middle, xs = pre ++ t :: middle ∧ rest = middle ++ ys) ∨
      ∃ middle, pre = xs ++ middle ∧ ys = middle ++ t :: rest := by
  rcases List.append_eq_append_iff.mp h with ⟨middle, rfl, hys⟩ | ⟨middle, rfl, hrest⟩
  · exact .inr ⟨middle, rfl, hys⟩
  · cases middle with
    | nil => exact .inr ⟨[], by simp, hrest.symm⟩
    | cons u middle =>
      obtain ⟨rfl, rfl⟩ := List.cons.inj hrest
      exact .inl ⟨middle, rfl, rfl⟩

/-- A keyword does not stand in a stretch without keywords. -/
theorem split_of_not {head tail pre rest : List Token} {t : Token} (h : head ++ tail = pre ++ t :: rest)
    (ht : t.kind.isDeclaration = true) (htail : ∀ u ∈ tail, u.kind.isDeclaration = false) :
    ∃ middle, head = pre ++ t :: middle ∧ rest = middle ++ tail := by
  obtain hhead | ⟨middle, -, rfl⟩ := split_append h
  · exact hhead
  · rw [htail t (List.mem_append_right _ (List.mem_cons_self ..))] at ht
    cases ht

/-! ## The beginning of an import -/

/-- How an import statement begins: with its keyword, and perhaps a word for the kind of the symbols. -/
structure ImportHead where
  keyword : Token
  keyword_kind : keyword.kind = .useKeyword
  word : Option (Gap × Token)
  word_kind : ∀ part ∈ word, part.2.kind = .functionKeyword ∨ part.2.kind = .constKeyword

/-- How a statement begins that imports symbols one by one. -/
def ImportItem.importHead (u : ImportItem) : ImportHead := ⟨u.keyword, u.keyword_kind, u.word, u.word_kind⟩

namespace ImportHead

variable (i : ImportHead)

/-- The word with the gap before it. -/
def wordTokens : List Token := (i.word.map fun part => part.1.tokens ++ [part.2]).getD []

/-- The tokens of the beginning. -/
def head : List Token := i.keyword :: i.wordTokens

/-- The word for functions, if the symbols are functions. -/
def function? : Option Token := (i.word.map Prod.snd).filter (·.kind == .functionKeyword)

theorem kind_of_mem_function? {t : Token} (h : i.function? = some t) : t.kind = .functionKeyword :=
  beq_iff_eq.mp (Option.filter_eq_some_iff.mp h).2

theorem head_of_word {part : Gap × Token} (h : i.word = some part) :
    i.head = (i.keyword :: part.1.tokens) ++ [part.2] := by
  rw [head, wordTokens, h]
  rfl

theorem isIgnorable_keyword : i.keyword.isIgnorable = false := by
  simp [isIgnorable, i.keyword_kind, TokenKind.isIgnorable]

/-- The keywords of the beginning: that of the statement, and perhaps the word. -/
theorem head_split {pre rest : List Token} {t : Token} (h : i.head = pre ++ t :: rest)
    (ht : t.kind.isDeclaration = true) : pre = [] ∧ t = i.keyword ∧ rest = i.wordTokens ∨
      ∃ part, i.word = some part ∧ pre = i.keyword :: part.1.tokens ∧ t = part.2 ∧ rest = [] := by
  rw [head] at h
  cases pre with
  | nil =>
    obtain ⟨rfl, rfl⟩ := List.cons.inj h
    exact .inl ⟨rfl, rfl, rfl⟩
  | cons u pre =>
    obtain ⟨rfl, hword⟩ := List.cons.inj h
    rw [wordTokens] at hword
    cases hpart : i.word with
    | none =>
      rw [hpart] at hword
      simp at hword
    | some part =>
      rw [hpart, Option.map_some, Option.getD_some] at hword
      obtain ⟨middle, hgap, -⟩ | ⟨middle, rfl, hlast⟩ := split_append hword
      · have hignorable := part.1.ignorable t (by rw [hgap]; exact List.mem_append_right _ (List.mem_cons_self ..))
        rw [kind_of_isPlain (isPlain_of_ignorable hignorable)] at ht
        cases ht
      · cases middle with
        | nil =>
          obtain ⟨rfl, rfl⟩ := List.cons.inj hlast
          exact .inr ⟨part, rfl, by rw [List.append_nil], rfl, rfl⟩
        | cons _ _ => simp at hlast

/-- The word stands right after the keyword. -/
theorem followsUse_word {part : Gap × Token} (pre : List Token) :
    followsUse (pre ++ i.keyword :: part.1.tokens) = true := by
  rw [followsUse, List.append_cons, Scanned.previousSignificant?_gap i.isIgnorable_keyword, Option.any_some,
    i.keyword_kind]
  rfl

/-- So it begins no statement. -/
theorem isStatementKeyword_word {part : Gap × Token} (hword : i.word = some part) {pre rest : List Token}
    (hnumbered : Numbered 0 (pre ++ (i.head ++ rest))) :
    isStatementKeyword (pre ++ (i.head ++ rest)) part.2 = false := by
  have hsplit : pre ++ (i.head ++ rest) = (pre ++ i.keyword :: part.1.tokens) ++ part.2 :: rest := by
    rw [i.head_of_word hword]
    simp
  rw [Splice.isStatementKeyword_eq hsplit hnumbered, i.followsUse_word]
  rcases i.word_kind part hword with hkind | hkind <;> simp [hkind]

variable {home : Scope} {outer : List Scope}

/-- The word for functions waits for a block. -/
theorem run_head (hhome : Home home outer) (previous : Option TokenKind) (beyond : List Token) :
    ∃ previous', Traversal.run beyond ⟨home :: outer, none, previous⟩ i.head =
      (⟨home :: outer, i.function?, previous'⟩, i.head.map (.passed · (some home))) := by
  have hkeyword : Traversal.Quiet (home :: outer) none i.keyword :=
    Traversal.quiet_of_statement (.inl i.keyword_kind)
  have hgap (gap : Gap) : ∀ t ∈ gap.tokens, Traversal.Quiet (home :: outer) none t := fun t ht =>
    Traversal.quiet_of_isPlain (isPlain_of_ignorable (gap.ignorable t ht)) (List.cons_ne_nil _ _)
  cases hword : i.word with
  | none =>
    have hhead : i.head = [i.keyword] := by rw [head, wordTokens, hword]; rfl
    have hfunction : i.function? = none := by rw [function?, hword]; rfl
    rw [hhead, hfunction, Traversal.run_quiet (List.forall_mem_singleton.mpr hkeyword)]
    exact ⟨_, rfl⟩
  | some part =>
    have hbefore : ∀ t ∈ i.keyword :: part.1.tokens, Traversal.Quiet (home :: outer) none t :=
      List.forall_mem_cons.mpr ⟨hkeyword, hgap part.1⟩
    rw [i.head_of_word hword]
    rcases i.word_kind part hword with hkind | hkind
    · have hfunction : i.function? = some part.2 := by simp [function?, hword, hkind]
      have hprocess (previous : Option TokenKind) (rest : List Token) :
          Traversal.process ⟨home :: outer, none, previous⟩ part.2 rest =
            (⟨home :: outer, some part.2, previous⟩, []) := by
        simp [Traversal.process, hkind, Traversal.current?, hhome.ownsFunctions]
      have hsignificant : part.2.isIgnorable = false := by
        simp [isIgnorable, hkind, TokenKind.isIgnorable]
      refine ⟨some part.2.kind, ?_⟩
      rw [hfunction, Traversal.run_append, Traversal.run_quiet hbefore, Traversal.run_cons,
        Traversal.step_eq, hprocess, List.map_append]
      simp [Traversal.note, hsignificant, Traversal.current?]
    · have hfunction : i.function? = none := by simp [function?, hword, hkind]
      have hall : ∀ t ∈ (i.keyword :: part.1.tokens) ++ [part.2],
          Traversal.Quiet (home :: outer) none t :=
        List.forall_mem_append.mpr ⟨hbefore, List.forall_mem_singleton.mpr
          (Traversal.quiet_of_statement (.inr hkind))⟩
      rw [hfunction, Traversal.run_quiet hall]
      exact ⟨_, rfl⟩

end ImportHead

end Reflection
