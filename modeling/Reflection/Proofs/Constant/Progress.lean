import Mathlib.Tactic.SplitIfs
import Reflection.Proofs.Constant.Soundness
import Reflection.Proofs.Loop

/-!
# Readers of constant expressions move on

A reader that succeeds has read at least one token and leaves the tokens after those that it read. The
operators of a rank and the elements of an array are read by loops that have no limit of their own; their
rounds move on because the readers do.

With a budget that bounds how deep calls and rounds lie in each other, the readers are structurally
recursive, and nothing may come of them. Thirteen for each token are enough: one for each of the ten
ranks, for an operand with the operators before it, for the operand itself, and for an array.

## Main definitions

* `operatorsRound`, `elementsRound`: the rounds of the loops.
* `binaryWithin`, `unaryWithin`, `primaryWithin`, `arrayWithin`: the readers with a budget.
* `evaluateWithin`: evaluation with a budget.

## Main statements

* `ReadsBinary.advances`, `ReadsPrimary.suffix`, `ReadsElements.advances`: readers move on.
* `loop_operatorsRound`, `loop_elementsRound`: the loops come to what the readers give.
* `suffices_budget`: a budget that is in proportion to the number of tokens suffices.
* `evaluateWithin_eq`: evaluation ends.
-/
namespace Reflection

open Reflection.Text Token

variable {ctx : ReadContext} {room rank budget : Nat} {closing : String} {t : Token}
  {ts rest left : List Token} {e : Expression} {els : List ArrayElement}

/-- What was read with the tokens left, or the break. -/
def forgetBound {α : Type} {n : Nat} (x : Except Broken (Reading α n)) :
    Except Broken (α × List Token) := x.map fun r => (r.result, r.left)

@[simp] theorem forgetBound_ok {α : Type} {n : Nat} (r : Reading α n) :
    forgetBound (.ok r) = .ok (r.result, r.left) := rfl

@[simp] theorem forgetBound_error {α : Type} {n : Nat} (b : Broken) :
    forgetBound (.error b : Except Broken (Reading α n)) = .error b := rfl

/-! ## Readers that succeed -/

theorem ReadsBinary.advances (h : ReadsBinary ctx room rank ts e left) : Advances ts left := by
  have hlt := h.length_lt
  obtain ⟨-, used, named, rfl, -, -⟩ := h.consumed
  exact ⟨used, by rintro rfl; simp at hlt, rfl⟩

theorem ReadsElements.advances (h : ReadsElements ctx room closing ts els left) : Advances ts left := by
  obtain ⟨-, used, c, named, rfl, -, -, -⟩ := h.consumed
  exact .of_cons_suffix (List.suffix_append used (c :: left))

theorem suffix_readReference {r : Reading Expression (rest.length + 1)}
    (h : readReference ctx t rest = .ok r) : r.left <:+ rest := by
  have hdrop : rest.dropWhile namesConstant <:+ rest := List.dropWhile_suffix _
  unfold readReference at h
  dsimp only at h
  split at h
  · cases h
    exact List.nil_suffix
  · rename_i c tail _ heq _
    rw [heq] at hdrop
    split at h
    · split at h
      · cases h
      · cases h
        exact ((List.suffix_cons _ _).trans (List.suffix_cons _ _)).trans hdrop
    · split at h
      · cases h
      · cases h
        exact hdrop

/-- An operand that starts with a token leaves tokens after it. -/
theorem ReadsPrimary.suffix (h : ReadsPrimary ctx room t rest e left) : left <:+ rest := by
  cases hliteral : t.literal? with
  | some literal =>
    obtain ⟨-, rfl⟩ := (readsPrimary_literal hliteral).mp h
    exact List.suffix_refl _
  | none =>
    by_cases hparen : t.text = "("
    · obtain ⟨room', inner, c, -, -, -, hinner⟩ := (readsPrimary_group hliteral hparen).mp h
      exact (List.suffix_cons c left).trans hinner.advances.suffix
    by_cases hbracket : t.text = "["
    · obtain ⟨room', els, -, -, hels⟩ := (readsPrimary_list hliteral hbracket).mp h
      exact hels.advances.suffix
    by_cases harray : t.word = "array" ∧ startsWith rest "(" = true
    · obtain ⟨hword, hstarts⟩ := harray
      cases rest with
      | nil => simp [startsWith] at hstarts
      | cons o rest =>
        have ho : o.word = "(" := by simpa [startsWith] using hstarts
        obtain ⟨room', els, -, -, hels⟩ := (readsPrimary_array hliteral hword ho).mp h
        exact hels.advances.suffix.trans (List.suffix_cons o rest)
    · obtain ⟨hnumber, hstring, hnull, htrue, hfalse⟩ := Token.literal?_eq_none.mp hliteral
      obtain ⟨hlength, heq⟩ := h
      rw [readPrimary.eq_def, if_neg hnumber, if_neg hstring, if_neg hnull, if_neg htrue,
        if_neg hfalse, if_neg hparen, if_neg hbracket, if_neg harray] at heq
      split at heq
      · exact suffix_readReference heq
      · cases heq

/-! ## Operators -/

/-- A reader of operands. Nothing comes of it where it goes on beyond a budget. -/
abbrev OperandReader := List Token → Option (Except Broken (Expression × List Token))

/-- The reader of operands with operators up to a rank, which has no budget. -/
def operandReader (ctx : ReadContext) (room rank : Nat) : OperandReader := fun ts =>
  some (forgetBound (readBinary ctx room rank ts))

/-- A round of the loop that reads the operators of the rank above `rank` and their right operands. -/
def operatorsRound (rank : Nat) (operand : OperandReader) : Expression × List Token →
    Option (Round (Expression × List Token) Broken (Expression × List Token))
  | (left, []) => some (.ends (left, []))
  | (left, t :: rest) =>
    match t.binaryOp?.filter (·.rank == rank + 1) with
    | none => some (.ends (left, t :: rest))
    | some op =>
      match operand rest with
      | none => none
      | some (.error b) => some (.raises (b.after left))
      | some (.ok (right, rest')) => some (.goesOn (.binary op left right, rest'))

/-- What the operators after an operand come to. -/
def operatorsFrom (ctx : ReadContext) (room rank : Nat) (s : Expression × List Token) :
    Except Broken (Expression × List Token) := forgetBound (readOperators ctx room rank s.1 s.2)

/-- A round moves on with a reader that is right about fewer tokens. -/
theorem operatorsRound_continues {operand : OperandReader} (s : Expression × List Token)
    (h : ∀ ts, ts.length ≤ s.2.length → operand ts = operandReader ctx room rank ts) :
    ∃ r, operatorsRound rank operand s = some r ∧ r.Continues (operatorsFrom ctx room rank) s := by
  obtain ⟨left, ts⟩ := s
  cases ts with
  | nil =>
    refine ⟨.ends (left, []), rfl, ?_⟩
    simp only [Round.Continues, operatorsFrom, readOperators]
    rfl
  | cons t rest =>
    have hoperand := h rest (Nat.le_succ _)
    cases hop : t.binaryOp?.filter (·.rank == rank + 1) with
    | none =>
      refine ⟨.ends (left, t :: rest), by simp only [operatorsRound, hop], ?_⟩
      simp only [Round.Continues, operatorsFrom, readOperators, hop]
      rfl
    | some op =>
      cases hread : readBinary ctx room rank rest with
      | error b =>
        refine ⟨.raises (b.after left), ?_, ?_⟩
        · simp only [operatorsRound, hop, hoperand, operandReader, hread, forgetBound_error]
        · simp only [Round.Continues, operatorsFrom, readOperators, hop, hread, forgetBound_error]
      | ok r =>
        obtain ⟨right, rest', hlt⟩ := r
        refine ⟨.goesOn (.binary op left right, rest'), ?_, ?_, ?_⟩
        · simp only [operatorsRound, hop, hoperand, operandReader, hread, forgetBound_ok]
        · exact advances_cons (ReadsBinary.advances ⟨hlt, hread⟩).suffix
        · simp only [operatorsFrom, readOperators, hop, hread]
          cases readOperators ctx room rank (.binary op left right) rest' <;> rfl

/-- The loop comes to what the reader of the operators gives. -/
theorem loop_operatorsRound (s : Expression × List Token) (hbudget : s.2.length < budget) :
    Round.loop (operatorsRound rank (operandReader ctx room rank)) budget s =
      some (operatorsFrom ctx room rank s) :=
  Round.loop_eq hbudget fun s' _ => operatorsRound_continues s' fun _ _ => rfl

/-! ## Elements -/

/-- A break after the expressions of an element. -/
def Broken.afterElement : ArrayElement → Broken → Broken
  | .positional value, b => b.after value
  | .keyed key value, b => (b.after value).after key

/-- A break after elements. -/
def Broken.afterAll (items : List ArrayElement) (b : Broken) : Broken :=
  items.foldr Broken.afterElement b

@[simp] theorem Broken.afterAll_concat (items : List ArrayElement) (el : ArrayElement) (b : Broken) :
    afterAll (items ++ [el]) b = afterAll items (afterElement el b) := by
  simp [afterAll]

/-- The end of a round after an element: a comma is passed, and the closing bracket is left to the next
round. -/
def separatorRound (ctx : ReadContext) (closing : String) (items : List ArrayElement) :
    List Token → Round (List ArrayElement × List Token) Broken (List ArrayElement × List Token)
  | [] => .raises (.afterAll items (.at .unexpectedEnd ctx.lastLine))
  | t :: rest =>
    if t.word = "," then .goesOn (items, rest)
    else if t.word = closing then .goesOn (items, t :: rest)
    else .raises (.afterAll items (.at (.unexpectedInArray t.text) t.line))

/-- A round of the loop that reads the elements of an array up to the closing bracket. -/
def elementsRound (ctx : ReadContext) (operand : OperandReader) (closing : String) :
    List ArrayElement × List Token →
      Option (Round (List ArrayElement × List Token) Broken (List ArrayElement × List Token))
  | (items, ts) =>
    if startsWith ts closing then some (.ends (items, ts.tail))
    else
      match operand ts with
      | none => none
      | some (.error b) => some (.raises (.afterAll items b))
      | some (.ok (first, left)) =>
        if startsWith left "=>" then
          match operand left.tail with
          | none => none
          | some (.error b) => some (.raises (.afterAll items (b.after first)))
          | some (.ok (value, left')) =>
            some (separatorRound ctx closing (items ++ [.keyed first value]) left')
        else some (separatorRound ctx closing (items ++ [.positional first]) left)

/-- What further elements come to after those that were read. -/
def afterItems (items : List ArrayElement) :
    Except Broken (List ArrayElement × List Token) → Except Broken (List ArrayElement × List Token)
  | .error b => .error (.afterAll items b)
  | .ok (els, left) => .ok (items ++ els, left)

/-- What the elements of an array come to after those that were read. -/
def elementsFrom (ctx : ReadContext) (room : Nat) (closing : String)
    (s : List ArrayElement × List Token) : Except Broken (List ArrayElement × List Token) :=
  afterItems s.1 (forgetBound (readElements ctx room closing s.2))

theorem elementsFrom_nil :
    elementsFrom ctx room closing ([], ts) = forgetBound (readElements ctx room closing ts) := by
  rw [elementsFrom]
  cases readElements ctx room closing ts <;> rfl

/-- What follows the elements that were read comes to. -/
def separatorFrom (ctx : ReadContext) (room : Nat) (closing : String) (items : List ArrayElement)
    (ts : List Token) : Except Broken (List ArrayElement × List Token) :=
  afterItems items (forgetBound (readSeparator ctx room closing ts))

theorem elementsFrom_closing {items : List ArrayElement} (ht : t.word = closing) :
    elementsFrom ctx room closing (items, t :: rest) = .ok (items, rest) := by
  rw [elementsFrom, readElements.eq_def]
  dsimp only
  rw [if_pos ht]
  simp [afterItems]

theorem readBinary_nil (ctx : ReadContext) (room rank : Nat) :
    readBinary ctx room rank [] = .error (.at .unexpectedEnd ctx.lastLine) := by
  induction rank with
  | zero => rw [readBinary, readUnary]
  | succ rank ih => rw [readBinary, ih]

/-- Where no closing bracket stands, an element is read and what follows it. -/
theorem elementsFrom_not_closing (ctx : ReadContext) (room : Nat) (items : List ArrayElement)
    (hts : startsWith ts closing = false) :
    elementsFrom ctx room closing (items, ts) =
      match readBinary ctx room 9 ts with
      | .error b => .error (.afterAll items b)
      | .ok r =>
        if startsWith r.left "=>" then
          match readBinary ctx room 9 r.left.tail with
          | .error b => .error (.afterAll items (b.after r.result))
          | .ok r' => separatorFrom ctx room closing (items ++ [.keyed r.result r'.result]) r'.left
        else separatorFrom ctx room closing (items ++ [.positional r.result]) r.left := by
  cases ts with
  | nil =>
    rw [elementsFrom, readBinary_nil, readElements]
    rfl
  | cons t rest =>
    have ht : ¬t.word = closing := by simpa [startsWith] using hts
    rw [elementsFrom, readElements.eq_def]
    dsimp only
    rw [if_neg ht]
    cases hfirst : readBinary ctx room 9 (t :: rest) with
    | error b => rfl
    | ok r =>
      obtain ⟨first, left, hlt⟩ := r
      dsimp only
      split_ifs with harrow
      · cases hvalue : readBinary ctx room 9 left.tail with
        | error b => rfl
        | ok r' =>
          obtain ⟨value, left', hlt'⟩ := r'
          dsimp only
          rw [separatorFrom]
          cases readSeparator ctx room closing left' with
          | error b => simp [afterItems, Broken.afterElement]
          | ok r'' => simp [afterItems]
      · rw [separatorFrom]
        cases readSeparator ctx room closing left with
        | error b => simp [afterItems, Broken.afterElement]
        | ok r' => simp [afterItems]

/-- The end of a round leaves tokens of those that remain, and comes to what follows the elements. -/
theorem separatorRound_continues {items : List ArrayElement} {b : List ArrayElement}
    (hts : Advances rest ts)
    (hwhole : elementsFrom ctx room closing (b, rest) = separatorFrom ctx room closing items ts) :
    (separatorRound ctx closing items ts).Continues (elementsFrom ctx room closing) (b, rest) := by
  cases ts with
  | nil =>
    simp only [separatorRound, Round.Continues, hwhole, separatorFrom, readSeparator]
    rfl
  | cons t rest' =>
    simp only [separatorRound]
    split_ifs with hcomma hclosing
    · refine ⟨hts.trans_suffix (List.suffix_cons t rest'), ?_⟩
      rw [hwhole, separatorFrom, readSeparator, if_pos hcomma, elementsFrom]
      cases readElements ctx room closing rest' <;> rfl
    · refine ⟨hts, ?_⟩
      rw [hwhole, separatorFrom, readSeparator, if_neg hcomma, if_pos hclosing,
        elementsFrom_closing hclosing]
      simp [afterItems]
    · simp only [Round.Continues, hwhole, separatorFrom]
      rw [readSeparator, if_neg hcomma, if_neg hclosing]
      rfl

/-- A round moves on with a reader that is right about no more tokens than remain. -/
theorem elementsRound_continues {operand : OperandReader} (s : List ArrayElement × List Token)
    (h : ∀ ts, ts.length ≤ s.2.length → operand ts = operandReader ctx room 9 ts) :
    ∃ r, elementsRound ctx operand closing s = some r ∧
      r.Continues (elementsFrom ctx room closing) s := by
  obtain ⟨items, ts⟩ := s
  cases hclosing : startsWith ts closing with
  | true =>
    refine ⟨.ends (items, ts.tail), by simp only [elementsRound, hclosing, if_true], ?_⟩
    cases ts with
    | nil => simp [startsWith] at hclosing
    | cons t rest => exact elementsFrom_closing (by simpa [startsWith] using hclosing)
  | false =>
    have hwhole := elementsFrom_not_closing ctx room items hclosing
    have hoperand := h ts (Nat.le_refl _)
    cases hfirst : readBinary ctx room 9 ts with
    | error b =>
      refine ⟨.raises (.afterAll items b), ?_, by rw [Round.Continues, hwhole, hfirst]⟩
      simp only [elementsRound, hclosing, hoperand, operandReader, hfirst, forgetBound_error,
        Bool.false_eq_true, if_false]
    | ok r =>
      obtain ⟨first, left, hlt⟩ := r
      have hadvances : Advances ts left := ReadsBinary.advances ⟨hlt, hfirst⟩
      rw [hfirst] at hwhole
      dsimp only at hwhole
      cases harrow : startsWith left "=>" with
      | false =>
        refine ⟨separatorRound ctx closing (items ++ [.positional first]) left, ?_, ?_⟩
        · simp only [elementsRound, hclosing, hoperand, operandReader, hfirst, forgetBound_ok, harrow,
            Bool.false_eq_true, if_false]
        · rw [harrow, if_neg Bool.false_ne_true] at hwhole
          exact separatorRound_continues hadvances hwhole
      | true =>
        rw [harrow, if_pos rfl] at hwhole
        have htail : left.tail <:+ left := List.tail_suffix left
        have hoperand' := h left.tail (Nat.le_trans htail.length_le (Nat.le_of_lt hlt))
        cases hvalue : readBinary ctx room 9 left.tail with
        | error b =>
          refine ⟨.raises (.afterAll items (b.after first)), ?_, ?_⟩
          · simp only [elementsRound, hclosing, hoperand, operandReader, hfirst, forgetBound_ok, harrow,
              hoperand', hvalue, forgetBound_error, Bool.false_eq_true, if_false, if_true]
          · rw [Round.Continues, hwhole, hvalue]
        | ok r' =>
          obtain ⟨value, left', hlt'⟩ := r'
          rw [hvalue] at hwhole
          refine ⟨separatorRound ctx closing (items ++ [.keyed first value]) left', ?_, ?_⟩
          · simp only [elementsRound, hclosing, hoperand, operandReader, hfirst, forgetBound_ok, harrow,
              hoperand', hvalue, Bool.false_eq_true, if_false, if_true]
          · have hvalueAdvances : Advances left.tail left' := ReadsBinary.advances ⟨hlt', hvalue⟩
            exact separatorRound_continues
              (hadvances.trans_suffix (hvalueAdvances.suffix.trans htail)) hwhole

/-- The loop comes to what the reader of the elements gives. -/
theorem loop_elementsRound (s : List ArrayElement × List Token) (hbudget : s.2.length < budget) :
    Round.loop (elementsRound ctx (operandReader ctx room 9) closing) budget s =
      some (elementsFrom ctx room closing s) :=
  Round.loop_eq hbudget fun s' _ => elementsRound_continues s' fun _ _ => rfl

/-! ## Readers with a budget -/

mutual

/-- Reads operands joined by operators of a rank or of lower ranks. -/
def binaryWithin (ctx : ReadContext) :
    Nat → Nat → Nat → List Token → Option (Except Broken (Expression × List Token))
  | 0, _, _, _ => none
  | budget + 1, room, 0, ts => unaryWithin ctx budget room ts
  | budget + 1, room, rank + 1, ts =>
    match binaryWithin ctx budget room rank ts with
    | none => none
    | some (.error b) => some (.error b)
    | some (.ok s) => Round.loop (operatorsRound rank (binaryWithin ctx budget room rank)) budget s
  termination_by structural budget => budget

/-- Reads an operand with the operators before it. -/
def unaryWithin (ctx : ReadContext) :
    Nat → Nat → List Token → Option (Except Broken (Expression × List Token))
  | 0, _, _ => none
  | _ + 1, _, [] => some (.error (.at .unexpectedEnd ctx.lastLine))
  | budget + 1, room, t :: rest =>
    match t.unaryOp? with
    | none => primaryWithin ctx budget room t rest
    | some op =>
      match unaryWithin ctx budget room rest with
      | none => none
      | some (.error b) => some (.error b)
      | some (.ok (e, left)) => some (.ok (.unary op t.line e, left))
  termination_by structural budget => budget

/-- Reads an operand that starts with a token. -/
def primaryWithin (ctx : ReadContext) :
    Nat → Nat → Token → List Token → Option (Except Broken (Expression × List Token))
  | 0, _, _, _ => none
  | budget + 1, room, t, rest =>
    match t.literal? with
    | some literal => some (.ok (literal, rest))
    | none =>
      if t.text = "(" then
        match room with
        | 0 => some (.error (.at .nestedTooDeeply t.line))
        | room + 1 =>
          match binaryWithin ctx budget room 9 rest with
          | none => none
          | some (.error b) => some (.error b)
          | some (.ok (e, [])) => some (.error (.after e (.at .unexpectedEnd ctx.lastLine)))
          | some (.ok (e, c :: left)) =>
            if c.text = ")" then some (.ok (.group e, left))
            else some (.error (.after e (.at (.expected ")" c.text) c.line)))
      else if t.text = "[" then arrayWithin ctx budget room t "]" rest
      else if t.word = "array" ∧ startsWith rest "(" then arrayWithin ctx budget room t ")" rest.tail
      else if t.namesConstant ∨ isSelfWord t.word then some (forgetBound (readReference ctx t rest))
      else some (.error (.at (.cannotEvaluate (quoted t.text)) t.line))
  termination_by structural budget => budget

/-- Reads an array after its opening bracket. -/
def arrayWithin (ctx : ReadContext) :
    Nat → Nat → Token → String → List Token → Option (Except Broken (Expression × List Token))
  | 0, _, _, _, _ => none
  | _ + 1, 0, opening, _, _ => some (.error (.at .nestedTooDeeply opening.line))
  | budget + 1, room + 1, _, closing, ts =>
    match Round.loop (elementsRound ctx (binaryWithin ctx budget room 9) closing) budget ([], ts) with
    | none => none
    | some (.error b) => some (.error b)
    | some (.ok (els, left)) => some (.ok (.array els, left))
  termination_by structural budget => budget

end

/-- What an array comes to after its opening bracket. -/
def arrayFrom (ctx : ReadContext) (room : Nat) (opening : Token) (closing : String) (ts : List Token) :
    Except Broken (Expression × List Token) :=
  match room with
  | 0 => .error (.at .nestedTooDeeply opening.line)
  | room + 1 =>
    match readElements ctx room closing ts with
    | .error b => .error b
    | .ok r => .ok (.array r.result, r.left)

theorem arrayFrom_succ (opening : Token) :
    arrayFrom ctx (room + 1) opening closing ts =
      match elementsFrom ctx room closing ([], ts) with
      | .error b => .error b
      | .ok (els, left) => .ok (.array els, left) := by
  rw [arrayFrom, elementsFrom_nil]
  cases readElements ctx room closing ts <;> rfl

/-- The reader of an operand, by what the token is that it starts with. -/
theorem forgetBound_readPrimary :
    forgetBound (readPrimary ctx room t rest) =
      match t.literal? with
      | some literal => .ok (literal, rest)
      | none =>
        if t.text = "(" then
          match room with
          | 0 => .error (.at .nestedTooDeeply t.line)
          | room + 1 =>
            match forgetBound (readBinary ctx room 9 rest) with
            | .error b => .error b
            | .ok (e, []) => .error (.after e (.at .unexpectedEnd ctx.lastLine))
            | .ok (e, c :: left) =>
              if c.text = ")" then .ok (.group e, left)
              else .error (.after e (.at (.expected ")" c.text) c.line))
        else if t.text = "[" then arrayFrom ctx room t "]" rest
        else if t.word = "array" ∧ startsWith rest "(" then arrayFrom ctx room t ")" rest.tail
        else if t.namesConstant ∨ isSelfWord t.word then forgetBound (readReference ctx t rest)
        else .error (.at (.cannotEvaluate (quoted t.text)) t.line) := by
  cases hliteral : t.literal? with
  | some literal =>
    have hreads : ReadsPrimary ctx room t rest literal rest :=
      (readsPrimary_literal hliteral).mpr ⟨rfl, rfl⟩
    obtain ⟨hlt, heq⟩ := hreads
    rw [heq]
    rfl
  | none =>
    obtain ⟨hnumber, hstring, hnull, htrue, hfalse⟩ := Token.literal?_eq_none.mp hliteral
    rw [readPrimary.eq_def, if_neg hnumber, if_neg hstring, if_neg hnull, if_neg htrue, if_neg hfalse]
    dsimp only
    split_ifs with hparen hbracket harray hname
    · cases room with
      | zero => rfl
      | succ room =>
        dsimp only
        cases readBinary ctx room 9 rest with
        | error b => rfl
        | ok r =>
          obtain ⟨e, left, hlt⟩ := r
          cases left with
          | nil => rfl
          | cons c left =>
            dsimp only [forgetBound_ok]
            split_ifs <;> rfl
    · cases room with
      | zero => rfl
      | succ room =>
        dsimp only [arrayFrom]
        cases readElements ctx room "]" rest <;> rfl
    · cases rest with
      | nil => simp [startsWith] at harray
      | cons o rest =>
        cases room with
        | zero => rfl
        | succ room =>
          dsimp only [arrayFrom, List.tail_cons]
          cases readElements ctx room ")" rest <;> rfl
    · rfl
    · rfl

/-- The readers with a budget give what the readers without one give, where the budget is large enough
for the tokens. -/
structure Suffices (ctx : ReadContext) (budget : Nat) : Prop where
  binary : ∀ room rank ts, 13 * ts.length + rank + 2 ≤ budget →
    binaryWithin ctx budget room rank ts = some (forgetBound (readBinary ctx room rank ts))
  unary : ∀ room ts, 13 * ts.length + 1 ≤ budget →
    unaryWithin ctx budget room ts = some (forgetBound (readUnary ctx room ts))
  primary : ∀ room t rest, 13 * rest.length + 13 ≤ budget →
    primaryWithin ctx budget room t rest = some (forgetBound (readPrimary ctx room t rest))
  array : ∀ room opening closing ts, 13 * ts.length + 12 ≤ budget →
    arrayWithin ctx budget room opening closing ts = some (arrayFrom ctx room opening closing ts)

namespace Suffices

theorem binary_succ (h : Suffices ctx budget) (hbudget : 13 * ts.length + rank + 2 ≤ budget + 1) :
    binaryWithin ctx (budget + 1) room rank ts = some (forgetBound (readBinary ctx room rank ts)) := by
  cases rank with
  | zero => rw [binaryWithin, h.unary room ts (by omega), readBinary]
  | succ rank =>
    rw [binaryWithin, h.binary room rank ts (by omega), readBinary]
    cases hread : readBinary ctx room rank ts with
    | error b => rfl
    | ok r =>
      obtain ⟨operand, rest, hlt⟩ := r
      -- An operand was read, so the rounds ask for further ones among fewer tokens.
      have hloop : Round.loop (operatorsRound rank (binaryWithin ctx budget room rank)) budget
          (operand, rest) = some (operatorsFrom ctx room rank (operand, rest)) :=
        Round.loop_eq (by dsimp only; omega) fun s' hs' =>
          operatorsRound_continues s' fun ts' hts' => h.binary room rank ts' (by dsimp only at hs'; omega)
      dsimp only [forgetBound_ok]
      rw [hloop, operatorsFrom]
      cases readOperators ctx room rank operand rest <;> rfl

theorem unary_succ (h : Suffices ctx budget) (hbudget : 13 * ts.length + 1 ≤ budget + 1) :
    unaryWithin ctx (budget + 1) room ts = some (forgetBound (readUnary ctx room ts)) := by
  cases ts with
  | nil =>
    rw [unaryWithin, readUnary]
    rfl
  | cons t rest =>
    rw [List.length_cons] at hbudget
    rw [unaryWithin, readUnary]
    cases t.unaryOp? with
    | none => exact h.primary room t rest (by omega)
    | some op =>
      dsimp only
      rw [h.unary room rest (by omega)]
      cases readUnary ctx room rest <;> rfl

theorem primary_succ (h : Suffices ctx budget) (hbudget : 13 * rest.length + 13 ≤ budget + 1) :
    primaryWithin ctx (budget + 1) room t rest = some (forgetBound (readPrimary ctx room t rest)) := by
  rw [primaryWithin.eq_def, forgetBound_readPrimary]
  dsimp only
  cases t.literal? with
  | some literal => rfl
  | none =>
    dsimp only
    split_ifs
    · cases room with
      | zero => rfl
      | succ room =>
        dsimp only
        rw [h.binary room 9 rest (by omega)]
        rcases forgetBound (readBinary ctx room 9 rest) with b | ⟨e, _ | ⟨c, left⟩⟩
        · rfl
        · rfl
        · dsimp only
          split_ifs <;> rfl
    · exact h.array room t "]" rest (by omega)
    · have htail : rest.tail.length ≤ rest.length := (List.tail_suffix rest).length_le
      exact h.array room t ")" rest.tail (by omega)
    · rfl
    · rfl

theorem array_succ (h : Suffices ctx budget) {opening : Token}
    (hbudget : 13 * ts.length + 12 ≤ budget + 1) :
    arrayWithin ctx (budget + 1) room opening closing ts =
      some (arrayFrom ctx room opening closing ts) := by
  cases room with
  | zero => rfl
  | succ room =>
    -- The first round asks for an operand among all the tokens: its ten ranks and two readers more are
    -- what the budget for an array has beyond that for the tokens.
    have hloop : Round.loop (elementsRound ctx (binaryWithin ctx budget room 9) closing) budget ([], ts) =
        some (elementsFrom ctx room closing ([], ts)) :=
      Round.loop_eq (by dsimp only; omega) fun s' hs' =>
        elementsRound_continues s' fun ts' hts' => h.binary room 9 ts' (by dsimp only at hs'; omega)
    rw [arrayWithin, hloop, arrayFrom_succ]
    rcases elementsFrom ctx room closing ([], ts) with b | ⟨els, left⟩ <;> rfl

end Suffices

/-- A budget that is in proportion to the number of tokens suffices. -/
theorem suffices_budget (ctx : ReadContext) (budget : Nat) : Suffices ctx budget := by
  induction budget with
  | zero =>
    exact ⟨fun _ _ _ h => absurd h (by omega), fun _ _ h => absurd h (by omega),
      fun _ _ _ h => absurd h (by omega), fun _ _ _ _ h => absurd h (by omega)⟩
  | succ budget ih =>
    exact ⟨fun _ _ _ => ih.binary_succ, fun _ _ => ih.unary_succ, fun _ _ _ => ih.primary_succ,
      fun _ _ _ _ => ih.array_succ⟩

/-! ## Evaluation -/

/-- The expression that a list of tokens spells, read with a budget. -/
def Expression.ofTokensWithin (budget room : Nat) (ts : List Token) : Option (Except Broken Expression) :=
  match ts.getLast? with
  | none => some (.error (.at .empty (-1)))
  | some last =>
    match binaryWithin ⟨last.line⟩ budget room 9 ts with
    | none => none
    | some (.error b) => some (.error b)
    | some (.ok (e, [])) => some (.ok e)
    | some (.ok (e, t :: _)) => some (.error (.after e (.at (.unexpected t.text) t.line)))

/-- Value of the expression that a list of tokens spells, read with a budget. -/
def evaluateWithin (budget : Nat) (lookup : ConstantLookup) (room : Nat) (ts : List Token) :
    Option (Except EvaluationFault Value) :=
  (Expression.ofTokensWithin budget room ts).map fun
    | .ok e => e.value lookup
    | .error b => do
      let _ ← b.before.mapM (Expression.value lookup)
      .error (.unsupported b.cause b.line)

theorem Expression.ofTokensWithin_eq (hbudget : 13 * ts.length + 11 ≤ budget) :
    Expression.ofTokensWithin budget room ts = some (Expression.ofTokens room ts) := by
  unfold ofTokensWithin ofTokens
  cases ts.getLast? with
  | none => rfl
  | some last =>
    dsimp only
    rw [(suffices_budget _ budget).binary room 9 ts hbudget]
    rcases readBinary ⟨last.line⟩ room 9 ts with b | ⟨e, _ | ⟨t, left⟩, hlt⟩ <;> rfl

/-- Evaluation ends, given a budget that is in proportion to the number of tokens. -/
theorem evaluateWithin_eq {lookup : ConstantLookup} (hbudget : 13 * ts.length + 11 ≤ budget) :
    evaluateWithin budget lookup room ts = some (evaluate lookup room ts) := by
  rw [evaluateWithin, Expression.ofTokensWithin_eq hbudget, evaluate]
  cases Expression.ofTokens room ts <;> rfl

end Reflection
