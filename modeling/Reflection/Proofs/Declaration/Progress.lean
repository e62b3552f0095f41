import Reflection.Proofs.Constant.Progress
import Reflection.Proofs.Program.Clauses

/-!
# Reading moves on

The statements that declare imports and constants are read by loops over their clauses. A round of such a
loop ends the statement, raises a fault, or goes on after a comma; the loop that looks for the name of a
constant goes on after the token that it looked at. So all of them end, as the readers of the values do,
whatever the tokens are and wherever they break off.

## Main definitions

* `importRound`, `headRound`, `constantRound`: the rounds of the loops.
* `ReadingAdvances`: what moves on while tokens are read, and what ends.

## Main statements

* `importRound_continues`, `headRound_continues`, `constantRound_continues`: rounds move on.
* `reading_advances`: reading moves on and ends.
-/
namespace Reflection

open Token

variable {ts rest left : List Token}

/-! ## What is passed over -/

theorem suffix_skipIgnorable (ts : List Token) : skipIgnorable ts <:+ ts := List.dropWhile_suffix _

theorem suffix_takeNameTokens (afterSeparator : Bool) (ts : List Token) :
    (takeNameTokens afterSeparator ts).2 <:+ ts := by
  induction ts generalizing afterSeparator with
  | nil => exact List.suffix_refl _
  | cons t rest ih =>
    rw [takeNameTokens]
    split_ifs
    · exact (ih _).trans (List.suffix_cons t rest)
    · exact List.suffix_refl _

theorem suffix_takeExpression (closing : List String) (ts : List Token) :
    (takeExpression closing ts).2 <:+ ts := by
  induction ts generalizing closing with
  | nil => exact List.suffix_refl _
  | cons t rest ih =>
    rw [takeExpression]
    by_cases hends : t.endsExpression closing = true
    · simp [hends]
    · rw [if_neg hends]
      exact (ih _).trans (List.suffix_cons t rest)

theorem suffix_declaratorHead (name : Option Token) (ts : List Token) :
    (declaratorHead name ts).2 <:+ ts := by
  induction ts generalizing name with
  | nil => exact List.suffix_refl _
  | cons t rest ih =>
    rw [declaratorHead]
    by_cases hends : endsHead t = true
    · simp [hends]
    · rw [if_neg hends]
      exact (ih _).trans (List.suffix_cons t rest)

theorem suffix_readAlias {line : Int} {name localName : String}
    (h : readAlias line name rest = .ok (localName, left)) : left <:+ rest := by
  have hskip := suffix_skipIgnorable rest
  unfold readAlias at h
  dsimp only at h
  split at h
  · split at h
    · rename_i t after heq
      split at h
      · cases h
        have htail : t :: after <:+ rest := heq ▸
          (suffix_skipIgnorable _).trans ((List.tail_suffix _).trans hskip)
        exact (suffix_skipIgnorable after).trans ((List.suffix_cons t after).trans htail)
      · cases h
    · cases h
  · cases h
    exact hskip

/-- To go on after a comma is to move on. -/
theorem advances_skipIgnorable_tail {p : Token → Bool} (h : left.head?.any p = true)
    (hleft : left <:+ rest) : Advances rest (skipIgnorable left.tail) := by
  cases left with
  | nil => cases h
  | cons t after => exact (Advances.of_cons_suffix hleft).trans_suffix (suffix_skipIgnorable after)

/-! ## Clauses of statements -/

/-- What the clauses that remain of a statement come to after those that were read: all of them, or those
before the fault with the fault. -/
def Clauses.outcome {α : Type} (items : List α) (c : Clauses α) :
    Except (List α × StatementFault) (List α) :=
  match c.fault with
  | none => .ok (items ++ c.items)
  | some fault => .error (items ++ c.items, fault)

theorem Clauses.outcome_cons {α : Type} (items : List α) (item : α) (c : Clauses α) :
    (c.cons item).outcome items = c.outcome (items ++ [item]) := by
  simp [outcome, Clauses.cons]

/-- A round of the loop that reads the imports of a statement at a line. -/
def importRound (line : Int) : List UseClause × List Token →
    Round (List UseClause × List Token) (List UseClause × StatementFault) (List UseClause)
  | (items, rest) =>
    let taken := takeNameTokens false rest
    let name := Name.relative (spelling taken.1)
    if name = "" ∨ Name.endsOpen name = true then .ends items
    else
      match readAlias line name taken.2 with
      | .error fault => .raises (items, fault)
      | .ok (localName, left) =>
        if left.head?.any (·.isPunct ",") then
          .goesOn (items ++ [⟨name, localName⟩], skipIgnorable left.tail)
        else .ends (items ++ [⟨name, localName⟩])

theorem importRound_continues (line : Int) (s : List UseClause × List Token) :
    (importRound line s).Continues (fun s => (useClauses line s.2).outcome s.1) s := by
  obtain ⟨items, rest⟩ := s
  have hfirst := useClauses_first line rest
  unfold importRound
  dsimp only
  split_ifs with hname
  · rw [if_pos hname] at hfirst
    simp [Round.Continues, hfirst, Clauses.outcome]
  · rw [if_neg hname] at hfirst
    cases halias : readAlias line (Name.relative (spelling (takeNameTokens false rest).1))
        (takeNameTokens false rest).2 with
    | error fault =>
      rw [halias] at hfirst
      simp [Round.Continues, hfirst, Clauses.outcome]
    | ok found =>
      obtain ⟨localName, left⟩ := found
      rw [halias] at hfirst
      dsimp only at hfirst ⊢
      have hleft : left <:+ rest := (suffix_readAlias halias).trans (suffix_takeNameTokens false rest)
      split_ifs with hcomma
      · rw [if_pos hcomma] at hfirst
        refine ⟨advances_skipIgnorable_tail hcomma hleft, ?_⟩
        dsimp only
        rw [hfirst, Clauses.outcome_cons]
      · rw [if_neg hcomma] at hfirst
        simp [Round.Continues, hfirst, Clauses.outcome]

/-- A round of the loop that looks for the name of a constant: a token before the end of the head is
passed, with the white space after it. -/
def headRound : Option Token × List Token →
    Round (Option Token × List Token) Empty (Option Token × List Token)
  | (name, []) => .ends (name, [])
  | (name, t :: rest) =>
    if endsHead t then .ends (name, t :: rest)
    else .goesOn (if t.isIdentifier then some t else name, skipIgnorable rest)

theorem headRound_continues (s : Option Token × List Token) :
    (headRound s).Continues (fun s => .ok (declaratorHead s.1 s.2)) s := by
  obtain ⟨name, _ | ⟨t, rest⟩⟩ := s
  · rfl
  · unfold headRound
    dsimp only
    by_cases hends : endsHead t = true
    · rw [if_pos hends]
      simp [Round.Continues, declaratorHead, hends]
    · rw [if_neg hends]
      refine ⟨advances_cons (suffix_skipIgnorable rest), ?_⟩
      dsimp only
      rw [declaratorHead_skipIgnorable, declaratorHead, if_neg hends]

/-- A round of the loop that reads the constants of a statement at a line, in a stream that ends at
`lastLine`. -/
def constantRound (line lastLine : Int) : List Declarator × List Token →
    Round (List Declarator × List Token) (List Declarator × StatementFault) (List Declarator)
  | (items, rest) =>
    if rest.isEmpty then .ends items
    else
      match declaratorHead none rest with
      | (none, _) => .raises (items, .nameExpected line)
      | (some _, []) => .raises (items, .equalsExpected lastLine)
      | (some name, t :: after) =>
        if t.isPunct "=" then
          let taken := takeExpression [] after
          if taken.2.head?.any (·.text == ",") then
            .goesOn (items ++ [⟨name, taken.1⟩], skipIgnorable taken.2.tail)
          else .ends (items ++ [⟨name, taken.1⟩])
        else .raises (items, .equalsExpected t.line)

theorem constantRound_continues (line lastLine : Int) (s : List Declarator × List Token) :
    (constantRound line lastLine s).Continues
      (fun s => (declarators line lastLine s.2).outcome s.1) s := by
  obtain ⟨items, rest⟩ := s
  have hfirst := declarators_first line lastLine rest
  have hhead := suffix_declaratorHead none rest
  unfold constantRound
  dsimp only
  split_ifs with hempty
  · rw [if_pos hempty] at hfirst
    simp [Round.Continues, hfirst, Clauses.outcome]
  · rw [if_neg hempty] at hfirst
    rcases hname : declaratorHead none rest with ⟨_ | name, _ | ⟨t, after⟩⟩ <;>
      rw [hname] at hfirst hhead <;> dsimp only at hfirst hhead ⊢
    · simp [Round.Continues, hfirst, Clauses.outcome]
    · simp [Round.Continues, hfirst, Clauses.outcome]
    · simp [Round.Continues, hfirst, Clauses.outcome]
    · have hleft : (takeExpression [] after).2 <:+ rest :=
        (suffix_takeExpression [] after).trans ((List.suffix_cons t after).trans hhead)
      split_ifs with hequals hcomma
      · rw [if_pos hequals, if_pos hcomma] at hfirst
        refine ⟨advances_skipIgnorable_tail hcomma hleft, ?_⟩
        dsimp only
        rw [hfirst, Clauses.outcome_cons]
      · rw [if_pos hequals, if_neg hcomma] at hfirst
        simp [Round.Continues, hfirst, Clauses.outcome]
      · rw [if_neg hequals] at hfirst
        simp [Round.Continues, hfirst, Clauses.outcome]

/-! ## Reading -/

/-- What moves on while a list of tokens is read, from whatever position, and what ends. -/
structure ReadingAdvances (tokens : List Token) : Prop where
  /-- A reader of operands with operators that succeeds moves on. -/
  binary : ∀ ctx room rank p r, readBinary ctx room rank (tokens.drop p) = .ok r →
    AdvancesTo tokens p r.left
  /-- A reader of an operand with the operators before it that succeeds moves on. -/
  unary : ∀ ctx room p r, readUnary ctx room (tokens.drop p) = .ok r → AdvancesTo tokens p r.left
  /-- A reader of an operand that succeeds moves on from the token that the operand starts with. -/
  primary : ∀ ctx room p t rest r, tokens.drop p = t :: rest → readPrimary ctx room t rest = .ok r →
    AdvancesTo tokens p r.left
  /-- A reader of the elements of an array that succeeds moves on. -/
  array : ∀ ctx room closing p r, readElements ctx room closing (tokens.drop p) = .ok r →
    AdvancesTo tokens p r.left
  /-- A round of the loop over the operators of a rank moves on, and the loop comes to what the reader
  of the operators gives. -/
  operators : ∀ ctx room rank p left,
    (∃ r, operatorsRound rank (operandReader ctx room rank) (left, tokens.drop p) = some r ∧
      r.MovesFrom tokens p) ∧
    ∀ budget, tokens.length < budget →
      Round.loop (operatorsRound rank (operandReader ctx room rank)) budget (left, tokens.drop p) =
        some (forgetBound (readOperators ctx room rank left (tokens.drop p)))
  /-- A round of the loop over the elements of an array moves on, and the loop comes to what the reader
  of the elements gives. -/
  elements : ∀ ctx room closing p items,
    (∃ r, elementsRound ctx (operandReader ctx room 9) closing (items, tokens.drop p) = some r ∧
      r.MovesFrom tokens p) ∧
    ∀ budget, tokens.length < budget →
      Round.loop (elementsRound ctx (operandReader ctx room 9) closing) budget ([], tokens.drop p) =
        some (forgetBound (readElements ctx room closing (tokens.drop p)))
  /-- A round of the loop over the imports of a statement moves on, and the loop comes to the imports
  of the statement. -/
  imports : ∀ line p items, (importRound line (items, tokens.drop p)).MovesFrom tokens p ∧
    ∀ budget, tokens.length < budget →
      Round.loop (some ∘ importRound line) budget ([], afterUseKind (tokens.drop p)) =
        some ((readUse line (tokens.drop p)).outcome [])
  /-- A round of the loop over the head of a constant moves on, and the loop comes to its name and its
  end. -/
  head : ∀ name p, (headRound (name, tokens.drop p)).MovesFrom tokens p ∧
    ∀ budget, tokens.length < budget →
      Round.loop (some ∘ headRound) budget (name, tokens.drop p) =
        some (.ok (declaratorHead name (tokens.drop p)))
  /-- A round of the loop over the constants of a statement moves on, and the loop comes to the
  constants of the statement. -/
  constants : ∀ line lastLine p items,
    (constantRound line lastLine (items, tokens.drop p)).MovesFrom tokens p ∧
    ∀ budget, tokens.length < budget →
      Round.loop (some ∘ constantRound line lastLine) budget ([], skipIgnorable (tokens.drop p)) =
        some ((readConst line lastLine (tokens.drop p)).outcome [])
  /-- Evaluation ends, with calls and rounds that lie no deeper in each other than the budget says. -/
  evaluation : ∀ lookup room budget, 13 * tokens.length + 11 ≤ budget →
    evaluateWithin budget lookup room tokens = some (evaluate lookup room tokens)

theorem suffix_afterUseKind (rest : List Token) : afterUseKind rest <:+ rest := by
  have hskip := suffix_skipIgnorable rest
  unfold afterUseKind
  split
  · rename_i t after heq
    rw [heq] at hskip
    split_ifs
    · exact (suffix_skipIgnorable after).trans ((List.suffix_cons t after).trans hskip)
    · exact hskip
  · exact List.nil_suffix

/-- A loop over the tokens after a position ends within a budget that exceeds the number of tokens. -/
theorem loop_of_continues {β ε α : Type} {round : β × List Token → Round (β × List Token) ε α}
    {whole : β × List Token → Except ε α} (h : ∀ s, (round s).Continues whole s) {tokens : List Token}
    {p budget : Nat} (hbudget : tokens.length < budget) (b : β) (hleft : left <:+ tokens.drop p) :
    Round.loop (some ∘ round) budget (b, left) = some (whole (b, left)) := by
  have hle := hleft.length_le
  rw [List.length_drop] at hle
  exact Round.loop_eq (by dsimp only; omega) fun s _ => ⟨round s, rfl, h s⟩

/-- For every list of tokens: a reader of constant expressions that succeeds, from whatever position, has
moved on to a later position, at most the end. A round of the loops over operators, elements, imports, the
head of a constant, and constants ends the loop, raises a fault, or moves on in the same way. So the loops
come to what the readers give in no more rounds than there are tokens and one more, and evaluation ends. -/
theorem reading_advances (tokens : List Token) : ReadingAdvances tokens where
  binary _ _ _ _ r h := (ReadsBinary.advances ⟨r.shorter, h⟩).position
  unary ctx room p r h := by
    have hreads : ReadsBinary ctx room 0 (tokens.drop p) r.result r.left :=
      ⟨r.shorter, by rw [readBinary]; exact h⟩
    exact hreads.advances.position
  primary ctx room p t rest r hp h := by
    refine Advances.position ?_
    rw [hp]
    exact advances_cons (ReadsPrimary.suffix ⟨r.shorter, h⟩)
  array _ _ _ _ r h := (ReadsElements.advances ⟨r.shorter, h⟩).position
  operators ctx room rank p left := by
    refine ⟨?_, fun budget hbudget => ?_⟩
    · obtain ⟨r, hround, hr⟩ :=
        operatorsRound_continues (left, tokens.drop p) fun _ _ => rfl
      exact ⟨r, hround, hr.movesFrom⟩
    · exact loop_operatorsRound _ (by rw [List.length_drop]; omega)
  elements ctx room closing p items := by
    refine ⟨?_, fun budget hbudget => ?_⟩
    · obtain ⟨r, hround, hr⟩ :=
        elementsRound_continues (items, tokens.drop p) fun _ _ => rfl
      exact ⟨r, hround, hr.movesFrom⟩
    · rw [loop_elementsRound _ (by rw [List.length_drop]; omega), elementsFrom_nil]
  imports line p items :=
    ⟨(importRound_continues line _).movesFrom, fun _ hbudget =>
      loop_of_continues (importRound_continues line) hbudget [] (suffix_afterUseKind _)⟩
  head name p :=
    ⟨(headRound_continues _).movesFrom, fun _ hbudget =>
      loop_of_continues headRound_continues hbudget name (List.suffix_refl _)⟩
  constants line lastLine p items :=
    ⟨(constantRound_continues line lastLine _).movesFrom, fun _ hbudget =>
      loop_of_continues (constantRound_continues line lastLine) hbudget [] (suffix_skipIgnorable _)⟩
  evaluation _ _ _ hbudget := evaluateWithin_eq hbudget

/-- An array that breaks off after a comma. Fifty rounds in each other are enough for three tokens, and
reading ends with the end of the tokens. -/
theorem reading_advances_unclosed :
    let tokens : List Token :=
      [⟨.punctuation, "[", 1, 0⟩, ⟨.numberLiteral, "1", 1, 1⟩, ⟨.punctuation, ",", 1, 2⟩]
    13 * tokens.length + 11 ≤ 50 ∧
      evaluate (fun _ => none) 8 tokens = .error (.unsupported .unexpectedEnd 1) := by
  intro tokens
  have hbudget : 13 * tokens.length + 11 ≤ 50 := by decide
  have hends := (reading_advances tokens).evaluation (fun _ => none) 8 50 hbudget
  have hvalue : evaluateWithin 50 (fun _ => none) 8 tokens =
      some (.error (.unsupported .unexpectedEnd 1)) := rfl
  exact ⟨hbudget, Option.some.inj (hends.symm.trans hvalue)⟩

end Reflection
