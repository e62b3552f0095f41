import Reflection.Proofs.Program.Clauses

/-!
# Tokens without their places

What is read of tokens are names, texts and the tokens of values. None of it depends on the lines and
positions of the tokens, which only find their way into faults: a reader of the same tokens elsewhere
reads the same.

## Main definitions

* `Token.unplaced`: a token without its place.

## Main statements

* `readUse_unplaced`, `readConst_unplaced`: what statements declare does not depend on places.
* `takeName_unplaced`: nor do names.
-/
namespace Reflection

/-- The token without its line and position. -/
def Token.unplaced (t : Token) : Token := ⟨t.kind, t.text, -1, -1⟩

namespace Token

@[simp] theorem kind_unplaced (t : Token) : t.unplaced.kind = t.kind := rfl

@[simp] theorem text_unplaced (t : Token) : t.unplaced.text = t.text := rfl

@[simp] theorem isIgnorable_unplaced (t : Token) : t.unplaced.isIgnorable = t.isIgnorable := rfl

@[simp] theorem isPunct_unplaced (t : Token) (s : String) : t.unplaced.isPunct s = t.isPunct s := rfl

@[simp] theorem isIdentifier_unplaced (t : Token) : t.unplaced.isIdentifier = t.isIdentifier := rfl

@[simp] theorem unplaced_unplaced (t : Token) : t.unplaced.unplaced = t.unplaced := rfl

@[simp] theorem unplaced_comp_unplaced : unplaced ∘ unplaced = unplaced := rfl

@[simp] theorem isIgnorable_comp_unplaced : isIgnorable ∘ unplaced = isIgnorable := rfl

/-- Tokens that are the same without their places are of one kind. -/
theorem kind_of_unplaced {t t' : Token} (h : t'.unplaced = t.unplaced) : t'.kind = t.kind :=
  congrArg (·.kind) h

theorem text_of_unplaced {t t' : Token} (h : t'.unplaced = t.unplaced) : t'.text = t.text :=
  congrArg (·.text) h

theorem isIgnorable_of_unplaced {t t' : Token} (h : t'.unplaced = t.unplaced) :
    t'.isIgnorable = t.isIgnorable := by
  rw [isIgnorable, kind_of_unplaced h, isIgnorable]

/-! ## Readers -/

theorem skipIgnorable_unplaced (ts : List Token) :
    skipIgnorable (ts.map unplaced) = (skipIgnorable ts).map unplaced := by
  rw [skipIgnorable, List.dropWhile_map, isIgnorable_comp_unplaced]
  rfl

theorem spelling_unplaced (ts : List Token) : spelling (ts.map unplaced) = spelling ts := by
  rw [spelling, List.map_map]
  rfl

/-- A reader that goes on from token to token finds the same where no token by itself, without its place,
makes a difference. -/
theorem append_congr_of_unplaced {α : Type} {f : List Token → α}
    (hcons : ∀ t t' rest rest', t'.unplaced = t.unplaced → f rest' = f rest →
      f (t' :: rest') = f (t :: rest))
    {ts ts' rest rest' : List Token} (hts : ts'.map unplaced = ts.map unplaced)
    (hrest : f rest' = f rest) : f (ts' ++ rest') = f (ts ++ rest) := by
  induction ts generalizing ts' with
  | nil =>
    rw [List.map_nil, List.map_eq_nil_iff] at hts
    subst hts
    exact hrest
  | cons t ts ih =>
    obtain ⟨t', ts', rfl, ht, hts⟩ := List.map_eq_cons_iff.mp hts
    exact hcons t t' _ _ ht (ih hts)

theorem continuesName_unplaced (afterSeparator : Bool) (t : Token) (rest : List Token) :
    t.unplaced.continuesName afterSeparator (rest.map unplaced) =
      t.continuesName afterSeparator rest := by
  have hnext : (rest.map unplaced).head?.any (·.kind == .separator) =
      rest.head?.any (·.kind == .separator) := by
    cases rest <;> rfl
  simp only [continuesName, hnext, kind_unplaced, text_unplaced, isIdentifier_unplaced]

theorem takeNameTokens_unplaced (afterSeparator : Bool) (ts : List Token) :
    takeNameTokens afterSeparator (ts.map unplaced) =
      ((takeNameTokens afterSeparator ts).1.map unplaced,
        (takeNameTokens afterSeparator ts).2.map unplaced) := by
  induction ts generalizing afterSeparator with
  | nil => rfl
  | cons t rest ih =>
    simp only [List.map_cons, takeNameTokens, continuesName_unplaced, text_unplaced, ih]
    split <;> rfl

theorem takeName_unplaced (ts : List Token) :
    takeName (ts.map unplaced) = ((takeName ts).1, (takeName ts).2.map unplaced) := by
  simp only [takeName, takeNameTokens_unplaced, spelling_unplaced]

theorem bracketsAfter_unplaced (closing : List String) (t : Token) :
    bracketsAfter closing t.unplaced = bracketsAfter closing t := rfl

theorem takeExpression_unplaced (closing : List String) (ts : List Token) :
    takeExpression closing (ts.map unplaced) =
      ((takeExpression closing ts).1.map unplaced, (takeExpression closing ts).2.map unplaced) := by
  induction ts generalizing closing with
  | nil => rfl
  | cons t rest ih =>
    have hends : t.unplaced.endsExpression closing = t.endsExpression closing := rfl
    simp only [List.map_cons, takeExpression, hends, bracketsAfter_unplaced, ih, isIgnorable_unplaced]
    split
    · rfl
    · split <;> rfl

end Token

open Token

/-! ## Imports -/

/-- Two lists of imports, read wherever their tokens stand: the same ones, and both or neither of the
statements faulty. -/
def SameImports (read read' : Clauses UseClause) : Prop :=
  read'.items = read.items ∧ read'.fault.isSome = read.fault.isSome

namespace SameImports

variable {read read' read'' : Clauses UseClause}

theorem symm (h : SameImports read read') : SameImports read' read := ⟨h.1.symm, h.2.symm⟩

theorem trans (h : SameImports read read') (h' : SameImports read' read'') : SameImports read read'' :=
  ⟨h'.1.trans h.1, h'.2.trans h.2⟩

theorem cons (h : SameImports read read') (clause : UseClause) :
    SameImports (read.cons clause) (read'.cons clause) :=
  ⟨congrArg (List.cons clause) h.1, h.2⟩

end SameImports

/-- An import read elsewhere, at another line, has the same alias, with the tokens after it elsewhere, or
is faulty as well. -/
theorem readAlias_unplaced (line line' : Int) (name : String) (ts : List Token) :
    (∃ fault fault', readAlias line name ts = .error fault ∧
      readAlias line' name (ts.map unplaced) = .error fault') ∨
    ∃ localName left, readAlias line name ts = .ok (localName, left) ∧
      readAlias line' name (ts.map unplaced) = .ok (localName, left.map unplaced) := by
  simp only [readAlias, skipIgnorable_unplaced]
  generalize skipIgnorable ts = rest
  cases rest with
  | nil => exact .inr ⟨_, _, rfl, rfl⟩
  | cons t rest =>
    simp only [List.map_cons, List.head?_cons, Option.any_some, kind_unplaced, List.tail_cons,
      skipIgnorable_unplaced]
    generalize skipIgnorable rest = renamed
    by_cases hrenamed : (t.kind == .asKeyword) = true
    · simp only [hrenamed, if_true]
      cases renamed with
      | nil => exact .inl ⟨_, _, rfl, rfl⟩
      | cons u after =>
        simp only [List.map_cons, isIdentifier_unplaced, skipIgnorable_unplaced, text_unplaced]
        cases u.isIdentifier with
        | true => exact .inr ⟨_, _, rfl, rfl⟩
        | false => exact .inl ⟨_, _, rfl, rfl⟩
    · simp only [hrenamed]
      exact .inr ⟨_, _, rfl, rfl⟩

theorem useClauses_unplaced (line line' : Int) (ts : List Token) :
    SameImports (useClauses line ts) (useClauses line' (ts.map unplaced)) := by
  induction hlength : ts.length using Nat.strongRecOn generalizing ts with
  | _ n ih =>
  have htake := length_takeNameTokens false ts
  rw [useClauses_first line', useClauses_first line, takeNameTokens_unplaced, spelling_unplaced]
  dsimp only
  generalize Name.relative (spelling (takeNameTokens false ts).1) = name
  split_ifs with hname
  · exact ⟨rfl, rfl⟩
  · obtain ⟨fault, fault', hread, hread'⟩ | ⟨localName, left, hread, hread'⟩ :=
      readAlias_unplaced line line' name (takeNameTokens false ts).2
    · rw [hread, hread']
      exact ⟨rfl, rfl⟩
    · have hleft := length_readAlias hread
      rw [hread, hread']
      cases left with
      | nil => exact ⟨rfl, rfl⟩
      | cons t after =>
        have hskip := length_skipIgnorable after
        simp only [List.length_cons] at hleft
        cases hcomma : t.isPunct "," with
        | true =>
          simp only [List.map_cons, List.head?_cons, Option.any_some, isPunct_unplaced, hcomma, if_true,
            List.tail_cons, skipIgnorable_unplaced]
          exact (ih _ (by omega) (skipIgnorable after) rfl).cons _
        | false =>
          simp only [List.map_cons, List.head?_cons, Option.any_some, isPunct_unplaced, hcomma,
            Bool.false_eq_true, if_false]
          exact ⟨rfl, rfl⟩

theorem afterUseKind_unplaced (ts : List Token) :
    afterUseKind (ts.map unplaced) = (afterUseKind ts).map unplaced := by
  rw [afterUseKind, afterUseKind, skipIgnorable_unplaced]
  cases skipIgnorable ts with
  | nil => rfl
  | cons t after =>
    simp only [List.map_cons, kind_unplaced, skipIgnorable_unplaced]
    split <;> rfl

/-- The imports of a statement are the same wherever its tokens stand. -/
theorem readUse_unplaced (line line' : Int) (ts : List Token) :
    SameImports (readUse line ts) (readUse line' (ts.map unplaced)) := by
  rw [readUse, readUse, afterUseKind_unplaced]
  exact useClauses_unplaced line line' (afterUseKind ts)

/-! ## Constants -/

/-- A constant with its tokens without their places. -/
def Declarator.unplaced (d : Declarator) : Declarator :=
  ⟨d.name.unplaced, d.expression.map Token.unplaced⟩

/-- Two lists of constants, read wherever their tokens stand: the same ones, and both or neither of the
statements faulty. -/
def SameConstants (read read' : Clauses Declarator) : Prop :=
  read'.items.map Declarator.unplaced = read.items.map Declarator.unplaced ∧
    read'.fault.isSome = read.fault.isSome

namespace SameConstants

variable {read read' read'' : Clauses Declarator}

theorem symm (h : SameConstants read read') : SameConstants read' read := ⟨h.1.symm, h.2.symm⟩

theorem trans (h : SameConstants read read') (h' : SameConstants read' read'') :
    SameConstants read read'' :=
  ⟨h'.1.trans h.1, h'.2.trans h.2⟩

end SameConstants

theorem declaratorHead_unplaced (name : Option Token) (ts : List Token) :
    declaratorHead (name.map unplaced) (ts.map unplaced) =
      ((declaratorHead name ts).1.map unplaced, (declaratorHead name ts).2.map unplaced) := by
  induction ts generalizing name with
  | nil => rfl
  | cons t rest ih =>
    have hends : endsHead t.unplaced = endsHead t := rfl
    have hname : (if t.unplaced.isIdentifier then some t.unplaced else name.map unplaced) =
        (if t.isIdentifier then some t else name).map unplaced := by
      rw [isIdentifier_unplaced]
      split <;> rfl
    rw [List.map_cons, declaratorHead, declaratorHead, hname, ih, hends]
    split <;> rfl

/-- Reading elsewhere, and at other lines, changes nothing but the lines of faults. -/
theorem declarators_unplaced (line line' lastLine lastLine' : Int) (ts : List Token) :
    SameConstants (declarators line lastLine ts) (declarators line' lastLine' (ts.map unplaced)) := by
  induction hlength : ts.length using Nat.strongRecOn generalizing ts with
  | _ n ih =>
  have hhead := length_declaratorHead none ts
  have hread := declaratorHead_unplaced none ts
  rw [Option.map_none] at hread
  rw [declarators_first line', declarators_first line, hread, List.isEmpty_map]
  by_cases hempty : ts.isEmpty = true
  · rw [if_pos hempty, if_pos hempty]
    exact ⟨rfl, rfl⟩
  rw [if_neg hempty, if_neg hempty]
  revert hhead
  generalize declaratorHead none ts = head
  intro hhead
  obtain ⟨_ | name, _ | ⟨t, after⟩⟩ := head
  · exact ⟨rfl, rfl⟩
  · exact ⟨rfl, rfl⟩
  · exact ⟨rfl, rfl⟩
  · have htake := length_takeExpression [] after
    simp only [List.length_cons] at hhead
    simp only [Option.map_some, List.map_cons, isPunct_unplaced, takeExpression_unplaced]
    by_cases hequals : t.isPunct "=" = true
    · rw [if_pos hequals, if_pos hequals]
      revert htake
      generalize takeExpression [] after = taken
      intro htake
      obtain ⟨expression, _ | ⟨c, left⟩⟩ := taken
      · simp [SameConstants, Declarator.unplaced]
      · have hskip := length_skipIgnorable left
        simp only [List.length_cons] at htake
        obtain ⟨hitems, hfault⟩ := ih _ (by omega) (skipIgnorable left) rfl
        simp only [List.map_cons, List.head?_cons, Option.any_some, text_unplaced, List.tail_cons,
          skipIgnorable_unplaced]
        by_cases hcomma : (c.text == ",") = true
        · simp only [hcomma, if_true]
          refine ⟨?_, hfault⟩
          simp [Clauses.cons, hitems, Declarator.unplaced]
        · simp only [hcomma, Bool.false_eq_true, if_false]
          simp [SameConstants, Declarator.unplaced]
    · rw [if_neg hequals, if_neg hequals]
      exact ⟨rfl, rfl⟩

/-- The constants of a statement are the same wherever its tokens stand. -/
theorem readConst_unplaced (line line' lastLine lastLine' : Int) (ts : List Token) :
    SameConstants (readConst line lastLine ts) (readConst line' lastLine' (ts.map unplaced)) := by
  rw [readConst, readConst, skipIgnorable_unplaced]
  exact declarators_unplaced line line' lastLine lastLine' (skipIgnorable ts)

end Reflection
