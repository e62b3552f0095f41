import Reflection.Proofs.Declaration.Completion
import Reflection.Proofs.Declaration.Members
import Reflection.Proofs.Program.Clauses

/-!
# The constants of one statement

A constant statement is read as it is written: one constant for each part between its commas, whatever
types, brackets and comments stand in it, and nothing after its semicolon. The constants are declared
one after the other, each with what those before it have left, and all of them are declared unless a
fault escapes from the evaluation of one. That holds of the statements of files and of structures.

## Main definitions

* `ConstantStatement`: a constant statement.
* `ConstantStore`: what constants are looked up in and added to.
* `ConstantStore.declared`: the constants that are declared one after the other.
* `ConstantStore.Declares`: what they are, and when there are none.

## Main statements

* `ConstantStatement.readConst_afterKeyword`: the clauses of a statement, whatever follows it.
* `ConstantStore.declares`: a constant for each declarator, unless a fault escapes.
* `constants_of_statement`: the constants of a statement of a file and of a structure.
-/
namespace Reflection

open Token

/-! ## Statements -/

/-- A statement that declares constants, with any types, and values whose brackets match. -/
structure ConstantStatement where
  keyword : Token
  keyword_kind : keyword.kind = .constKeyword
  clauses : Parts DeclaratorPhrase
  semicolon : Token
  semicolon_isPunct : semicolon.isPunct ";" = true

namespace ConstantStatement

/-- The tokens of a statement after its keyword. -/
def afterKeyword (c : ConstantStatement) : List Token :=
  c.clauses.tokens DeclaratorPhrase.tokens ++ [c.semicolon]

/-- The tokens of a statement. -/
def tokens (c : ConstantStatement) : List Token := c.keyword :: c.afterKeyword

/-- What the parts of a statement declare. -/
def declarators (c : ConstantStatement) : List Declarator :=
  c.clauses.toList.map DeclaratorPhrase.declarator

theorem readConst_afterKeyword (line lastLine : Int) (c : ConstantStatement) (rest : List Token) :
    readConst line lastLine (c.afterKeyword ++ rest) = ⟨c.declarators, none⟩ := by
  rw [afterKeyword, List.append_assoc]
  exact readConst_parts id line lastLine c.clauses c.semicolon_isPunct rest

end ConstantStatement

/-! ## One constant -/

section

variable {options : ScanOptions} {lookup : ConstantLookup} {docComment : String} {d : Declarator}

theorem eq_of_constantOf {c : Constant} (h : (constantOf options lookup docComment d).outcome = .ok c) :
    c.name = d.name.text ∧ c.expression = spelling d.expression ∧ c.docComment = docComment := by
  simp only [constantOf, Report.outcome_bind] at h
  obtain ⟨value, -, h⟩ := exists_ok_of_bind h
  cases h
  exact ⟨rfl, rfl, rfl⟩

/-- A constant is not declared just where a fault escapes from its evaluation. -/
theorem constantOf_eq_error_iff {fault : ScanFault} :
    (constantOf options lookup docComment d).outcome = .error fault ↔
      options.evaluates = true ∧ ∃ cause, evaluate lookup options.room d.expression = .error cause ∧
        cause.Escapes ∧ fault = .evaluation cause := by
  cases heval : options.evaluates with
  | false =>
    have hkept : (constantOf options lookup docComment d).outcome =
        .ok ⟨d.name.text, .text (spelling d.expression), docComment, spelling d.expression⟩ := by
      simp only [constantOf, constantValue, heval, Bool.false_eq_true, if_false, Report.outcome_bind]
      rfl
    simp [hkept]
  | true =>
    rw [outcome_constantOf heval]
    cases hvalue : valueOrKept (evaluate lookup options.room d.expression) with
    | ok value? =>
      constructor
      · rintro ⟨⟩
      · rintro ⟨-, cause, hcause, hescapes, -⟩
        rw [valueOrKept_eq_error_iff.mpr ⟨hcause, hescapes⟩] at hvalue
        cases hvalue
    | error cause =>
      obtain ⟨hcause, hescapes⟩ := valueOrKept_eq_error_iff.mp hvalue
      constructor
      · rintro ⟨⟩
        exact ⟨rfl, cause, hcause, hescapes, rfl⟩
      · rintro ⟨-, cause', hcause', -, rfl⟩
        rw [hcause] at hcause'
        cases hcause'
        rfl

end

/-! ## Constants one after the other -/

/-- What the constants of a statement are looked up in and added to. -/
structure ConstantStore (σ : Type) where
  lookup : σ → ConstantLookup
  keep : σ → Constant → σ

namespace ConstantStore

variable {σ : Type} (store : ConstantStore σ) (options : ScanOptions) (docComment : String)

/-- The constants that declarators declare one after the other, and what is there after them. -/
def declared : σ → List Declarator → Except ScanFault (List Constant × σ)
  | s, [] => .ok ([], s)
  | s, d :: rest => do
    let c ← (constantOf options (store.lookup s) docComment d).outcome
    let (constants, last) ← declared (store.keep s c) rest
    return (c :: constants, last)

/-- Adding the constants of declarators one after the other leaves what is there after them. -/
theorem foldlM_eq_declared {add : σ → Declarator → Report ScanFault σ}
    (hadd : ∀ s d, (add s d).outcome =
      (constantOf options (store.lookup s) docComment d).outcome.map (store.keep s))
    (s : σ) (ds : List Declarator) :
    ds.foldlM (fun s d => (add s d).outcome) s =
      (store.declared options docComment s ds).map Prod.snd := by
  induction ds generalizing s with
  | nil => rfl
  | cons d rest ih =>
    rw [List.foldlM_cons, hadd, declared]
    cases (constantOf options (store.lookup s) docComment d).outcome with
    | error fault => rfl
    | ok c =>
      refine (ih (store.keep s c)).trans ?_
      cases hrest : store.declared options docComment (store.keep s c) rest <;>
        simp [hrest, bind, Except.bind, pure, Except.pure, Except.map]

/-- What the constants of a statement are. There is one for each part of the statement, in order, with
its name and the text of its value; they are declared unless a fault escapes from the evaluation of
one, which sees those before it. -/
structure Declares (s : σ) (phrases : List DeclaratorPhrase) : Prop where
  constants : ∀ constants last,
    store.declared options docComment s (phrases.map DeclaratorPhrase.declarator) = .ok (constants, last) →
      constants.map (fun c => (c.name, c.expression, c.docComment)) =
          phrases.map (fun phrase => (phrase.name.text, spelling (significant phrase.value), docComment)) ∧
        last = constants.foldl store.keep s
  faults : ∀ fault,
    store.declared options docComment s (phrases.map DeclaratorPhrase.declarator) = .error fault ↔
      options.evaluates = true ∧ ∃ before phrase after constants found cause,
        phrases = before ++ phrase :: after ∧
        store.declared options docComment s (before.map DeclaratorPhrase.declarator) =
          .ok (constants, found) ∧
        evaluate (store.lookup found) options.room (significant phrase.value) = .error cause ∧
        cause.Escapes ∧ fault = .evaluation cause

variable {store options docComment}

theorem declared_cons_eq_ok {s : σ} {d : Declarator} {rest : List Declarator} {constants : List Constant}
    {last : σ} (h : store.declared options docComment s (d :: rest) = .ok (constants, last)) :
    ∃ c others, (constantOf options (store.lookup s) docComment d).outcome = .ok c ∧
      store.declared options docComment (store.keep s c) rest = .ok (others, last) ∧
      constants = c :: others := by
  rw [declared] at h
  obtain ⟨c, hc, h⟩ := exists_ok_of_bind h
  obtain ⟨⟨others, last'⟩, hrest, h⟩ := exists_ok_of_bind h
  cases h
  exact ⟨c, others, hc, hrest, rfl⟩

theorem declared_cons_eq_error_iff {s : σ} {d : Declarator} {rest : List Declarator} {fault : ScanFault} :
    store.declared options docComment s (d :: rest) = .error fault ↔
      (constantOf options (store.lookup s) docComment d).outcome = .error fault ∨
        ∃ c, (constantOf options (store.lookup s) docComment d).outcome = .ok c ∧
          store.declared options docComment (store.keep s c) rest = .error fault := by
  rw [declared]
  cases hc : (constantOf options (store.lookup s) docComment d).outcome with
  | error fault' => simp [bind, Except.bind]
  | ok c =>
    cases hrest : store.declared options docComment (store.keep s c) rest <;>
      simp [hrest, bind, Except.bind, pure, Except.pure]

/-- A store takes the constants of a statement as they are written, by the parts of the statement. -/
theorem declares (s : σ) (phrases : List DeclaratorPhrase) :
    store.Declares options docComment s phrases := by
  induction phrases generalizing s with
  | nil =>
    refine ⟨fun constants last h => ?_, fun fault => ⟨fun h => (by cases h), fun h => ?_⟩⟩
    · cases h
      exact ⟨rfl, rfl⟩
    · obtain ⟨-, before, phrase, after, -, -, -, hsplit, -⟩ := h
      exact absurd hsplit.symm (by simp)
  | cons phrase rest ih =>
    refine ⟨fun constants last h => ?_, fun fault => ?_⟩
    · obtain ⟨c, others, hc, hrest, rfl⟩ := declared_cons_eq_ok h
      obtain ⟨hothers, hlast⟩ := (ih _).constants others last hrest
      obtain ⟨hname, hexpression, hdocComment⟩ := eq_of_constantOf hc
      refine ⟨?_, hlast⟩
      rw [List.map_cons, List.map_cons, hothers, hname, hexpression, hdocComment]
      rfl
    · rw [List.map_cons, declared_cons_eq_error_iff, constantOf_eq_error_iff]
      constructor
      · rintro (⟨heval, cause, hcause, hescapes, rfl⟩ | ⟨c, hc, hrest⟩)
        · exact ⟨heval, [], phrase, rest, [], s, cause, rfl, rfl, hcause, hescapes, rfl⟩
        · obtain ⟨heval, before, other, after, others, found, cause, rfl, hbefore, hcause⟩ :=
            ((ih _).faults fault).mp hrest
          refine ⟨heval, phrase :: before, other, after, c :: others, found, cause, rfl, ?_, hcause⟩
          rw [List.map_cons, declared, hc]
          simp only [bind, Except.bind, hbefore]
          rfl
      · rintro ⟨heval, before, other, after, constants, found, cause, hsplit, hbefore, hcause⟩
        cases before with
        | nil =>
          cases hsplit
          cases hbefore
          exact .inl ⟨heval, cause, hcause⟩
        | cons first before =>
          cases hsplit
          obtain ⟨c, others, hc, hothers, -⟩ := declared_cons_eq_ok hbefore
          exact .inr ⟨c, hc, ((ih _).faults fault).mpr
            ⟨heval, before, other, after, others, found, cause, rfl, hothers, hcause⟩⟩

end ConstantStore

/-! ## Files and structures -/

/-- The index of a file as a store of the constants of a statement in a namespace. -/
def fileStore (space : String) (s : Statement) (docComment : String) :
    ConstantStore DeclarationIndex where
  lookup := constantsIn space
  keep index c :=
    (index.add ⟨.constKind, Name.join space c.name, s.scope, s.token, docComment⟩ (.constant c)).1

/-- The constants of a structure as a store. -/
def memberStore : ConstantStore (Table String Constant) where
  lookup := constantsOfSelf
  keep constants c := Table.insert constants c.name c

/-- The constants of a statement, declared into the index of a file or into the constants of a
structure. Reading gives one declarator for each part of the statement, with the last identifier before
the equals sign and the significant tokens of the value, and depends on nothing after the semicolon.
What is declared are these, in order; it is a fault that escapes from evaluation, and nothing else, that
keeps a declarator from being declared. -/
theorem constants_of_statement (options : ScanOptions) {before rest : List Token} (c : ConstantStatement)
    (h : Numbered 0 (before ++ (c.tokens ++ rest))) :
    let tokens := before ++ (c.tokens ++ rest)
    tokensAfter tokens c.keyword = c.afterKeyword ++ rest ∧
    (∀ line lastLine rest', readConst line lastLine (c.afterKeyword ++ rest') = ⟨c.declarators, none⟩) ∧
    (∀ {σ : Type} (store : ConstantStore σ) docComment s,
      store.Declares options docComment s c.clauses.toList) ∧
    (∀ namespaces index scope,
      let s : Statement := ⟨c.keyword, scope⟩
      let docComment := docCommentBefore [] (tokensBefore tokens c.keyword)
      (fileConst options tokens namespaces index s).outcome =
        ((fileStore (namespaces.nameAt c.keyword.index) s docComment).declared options docComment index
          c.declarators).map Prod.snd) ∧
    ∀ constants scope, Option.any (·.level == 0) scope = true →
      (structureStep options tokens constants (.passed c.keyword scope)).outcome =
        (memberStore.declared options (docCommentBefore memberModifiers (tokensBefore tokens c.keyword))
          constants c.declarators).map Prod.snd := by
  intro tokens
  have hafter : tokensAfter tokens c.keyword = c.afterKeyword ++ rest := by
    rw [ConstantStatement.tokens, List.cons_append] at h
    exact tokensAfter_eq h
  have hread (line lastLine : Int) (rest' : List Token) := c.readConst_afterKeyword line lastLine rest'
  have hclauses (line : Int) :
      readConst line (lastLine tokens) (tokensAfter tokens c.keyword) = ⟨c.declarators, none⟩ := by
    rw [hafter, hread]
  refine ⟨hafter, hread, fun store docComment s => ConstantStore.declares s _,
    fun namespaces index scope => ?_, fun constants scope houtermost => ?_⟩
  · intro s docComment
    unfold fileConst
    rw [outcome_addClauses_of_fault (by rw [hclauses]), hclauses]
    refine ConstantStore.foldlM_eq_declared _ options docComment (fun index d => ?_) index c.declarators
    rw [Report.outcome_bind]
    change _ = (constantOf options (constantsIn _ index) docComment d).outcome.map _
    cases (constantOf options (constantsIn _ index) docComment d).outcome <;> rfl
  · have hmembers : structureStep options tokens constants (.passed c.keyword scope) =
        readMembers options tokens constants c.keyword := if_pos ⟨c.keyword_kind, houtermost⟩
    rw [hmembers, readMembers, outcome_addClauses_of_fault (by rw [hclauses]), hclauses]
    refine ConstantStore.foldlM_eq_declared _ options _ (fun constants d => ?_) constants c.declarators
    rw [Report.outcome_bind]
    change _ = (constantOf options (constantsOfSelf constants) _ d).outcome.map _
    cases (constantOf options (constantsOfSelf constants) _ d).outcome <;> rfl

/-- The statement `const int A = 1 << -1, B = [2, {3;}];`. -/
def bracketStatement : ConstantStatement where
  keyword := ⟨.constKeyword, "const", 5, 1⟩
  keyword_kind := rfl
  clauses := {
    first := {
      before := [⟨.whitespace, " ", 5, 2⟩, ⟨.identifier, "int", 5, 3⟩, ⟨.whitespace, " ", 5, 4⟩]
      before_endsHead := by decide
      name := ⟨.identifier, "A", 5, 5⟩
      name_isIdentifier := by decide
      after := ⟨[⟨.whitespace, " ", 5, 6⟩], by decide⟩
      equals := ⟨.punctuation, "=", 5, 7⟩
      equals_isPunct := rfl
      value := [⟨.numberLiteral, "1", 5, 8⟩, ⟨.punctuation, "<<", 5, 9⟩, ⟨.punctuation, "-", 5, 10⟩,
        ⟨.numberLiteral, "1", 5, 11⟩]
      value_nested := .other (by decide) (by decide) <| .other (by decide) (by decide) <|
        .other (by decide) (by decide) <| .other (by decide) (by decide) <| .nil true }
    more := [(⟨.punctuation, ",", 5, 12⟩, {
      before := []
      before_endsHead := by decide
      name := ⟨.identifier, "B", 5, 13⟩
      name_isIdentifier := by decide
      after := ⟨[], Gap.ignorable_nil⟩
      equals := ⟨.punctuation, "=", 5, 14⟩
      equals_isPunct := rfl
      value := ⟨.punctuation, "[", 5, 15⟩ :: ([⟨.numberLiteral, "2", 5, 16⟩, ⟨.punctuation, ",", 5, 17⟩] ++
        (⟨.punctuation, "\x7b", 5, 18⟩ :: [⟨.numberLiteral, "3", 5, 19⟩, ⟨.punctuation, ";", 5, 20⟩] ++
          ⟨.punctuation, "\x7d", 5, 21⟩ :: [])) ++ ⟨.punctuation, "]", 5, 22⟩ :: []
      value_nested :=
        have hbraces := .group rfl rfl rfl
          (.other (by decide) (by decide) <| .other (by decide) (by decide) <| .nil false) (.nil false)
        .group rfl rfl rfl (.other (by decide) (by decide) <| .other (by decide) (by decide) hbraces)
          (.nil true) })]
    comma_isPunct := by decide }
  semicolon := ⟨.punctuation, ";", 5, 23⟩
  semicolon_isPunct := rfl

/-- Both constants are declared where nothing is evaluated; the negative shift keeps an evaluating scan
from declaring them. The tokens after the semicolon are not read. -/
theorem constants_of_statement_brackets :
    let tokens := [⟨.openTag, "<?php", 1, 0⟩] ++ (bracketStatement.tokens ++ [⟨.punctuation, ",", 6, 24⟩])
    let s : Statement := ⟨bracketStatement.keyword, {}⟩
    (∃ constants : List Constant,
      (fileConst {} tokens [] {} s).outcome = .ok (constants.foldl (fileStore "" s "").keep {}) ∧
        constants.map (fun c => (c.name, c.expression, c.docComment)) =
          [("A", "1<<-1", ""), ("B", "[2,\x7b3;\x7d]", "")]) ∧
    (fileConst { evaluates := true } tokens [] {} s).outcome = .error (.evaluation .negativeShift) := by
  intro tokens s
  have hnumbered : Numbered 0 ([⟨.openTag, "<?php", 1, 0⟩] ++
      (bracketStatement.tokens ++ [⟨.punctuation, ",", 6, 24⟩])) := by
    repeat' constructor
  constructor
  · obtain ⟨-, -, hdeclares, hfile, -⟩ := constants_of_statement {} bracketStatement hnumbered
    obtain ⟨hconstants, hfaults⟩ := hdeclares (fileStore "" s "") "" {}
    cases hdeclared : (fileStore "" s "").declared {} "" {} bracketStatement.declarators with
    | error fault =>
      obtain ⟨heval, -⟩ := (hfaults fault).mp hdeclared
      cases heval
    | ok found =>
      obtain ⟨constants, last⟩ := found
      obtain ⟨hnamed, rfl⟩ := hconstants constants last hdeclared
      exact ⟨constants, (hfile [] {} {}).trans (congrArg (Except.map Prod.snd) hdeclared),
        hnamed.trans (by decide)⟩
  · obtain ⟨-, -, hdeclares, hfile, -⟩ :=
      constants_of_statement { evaluates := true } bracketStatement hnumbered
    have hfault : (fileStore "" s "").declared { evaluates := true } "" {} bracketStatement.declarators =
        .error (.evaluation .negativeShift) :=
      ((hdeclares (fileStore "" s "") "" {}).faults _).mpr
        ⟨rfl, [], _, _, [], {}, .negativeShift, rfl, rfl, by cbv, trivial, rfl⟩
    exact (hfile [] {} {}).trans (congrArg (Except.map Prod.snd) hfault)

end Reflection
