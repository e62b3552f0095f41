import Reflection.Proofs.Constant.Completeness

/-!
# What is read is spelled by the grammar

Whatever the readers of constant expressions accept is a spelling of the grammar followed by the
tokens that are left, and the brackets of the expression fit into the room. The proof follows the
recursion of the readers. With the converse, the expression that a list of tokens spells and the value
that it evaluates to are determined by the grammar.

## Main statements

* `Expression.ofTokens_eq_ok_iff`: a list of tokens is read as an expression just where it spells it.
* `exists_spelledBy_of_evaluate`: a list of tokens that has a value spells an expression that has it.
* `evaluate_spelling`: evaluation of a list of tokens is evaluation of the expression it spells.
-/
namespace Reflection

open Reflection.Text Token

variable {ctx : ReadContext}

/-- Tokens begin with a spelling of a phrase that the rest does not go on with. -/
def Phrase.Consumed (p : Phrase) (ts rest : List Token) : Prop :=
  ∃ used named, ts = used ++ rest ∧ Spells p used named ∧ ∀ t ∈ rest.head?, t.follows named

theorem follows_false (t : Token) : t.follows false := fun h => by cases h

theorem head?_dropWhile_names {ts : List Token} {t : Token}
    (h : t ∈ (ts.dropWhile namesConstant).head?) : t.namesConstant = false := by
  induction ts with
  | nil => simp at h
  | cons n ts ih =>
    cases hn : n.namesConstant with
    | true => exact ih (by simpa [List.dropWhile_cons, hn] using h)
    | false =>
      have : n = t := by simpa [List.dropWhile_cons, hn] using h
      rw [← this, hn]

theorem Token.beginsName.of_append {t : Token} {names rest : List Token}
    (h : t.beginsName (names ++ rest)) : t.beginsName names := by
  obtain ⟨hunary, hliteral, hparen, hbracket, harray, hname⟩ := h
  refine ⟨hunary, hliteral, hparen, hbracket, fun hstarts => harray ⟨hstarts.1, ?_⟩, hname⟩
  cases names with
  | nil => simp [startsWith] at hstarts
  | cons n names => exact hstarts.2

theorem nesting_of_literal? {t : Token} {e : Expression} (h : t.literal? = some e) :
    e.nesting = 0 := by
  unfold literal? at h
  repeat' split at h
  all_goals cases h
  all_goals rfl

/-- A name that is read is the longest one. -/
theorem consumed_name {room : Nat} {t : Token} {rest left : List Token} {e : Expression}
    (ht : t.beginsName rest) (h : ReadsPrimary ctx room t rest e left) :
    e.nesting ≤ room ∧ (Phrase.ranked 0 e).Consumed (t :: rest) left := by
  have hnames : ∀ n ∈ rest.takeWhile namesConstant, n.namesConstant = true := fun n hn =>
    List.all_eq_true.mp List.all_takeWhile n hn
  have hsplit : rest = rest.takeWhile namesConstant ++ rest.dropWhile namesConstant :=
    List.takeWhile_append_dropWhile.symm
  have hbegins : t.beginsName (rest.takeWhile namesConstant) := by
    rw [hsplit] at ht
    exact ht.of_append
  rcases (readsPrimary_name ht).mp h with ⟨rfl, rfl, -⟩ | ⟨hself, c, m, hafter, hc, rfl⟩
  · refine ⟨Nat.zero_le _, _, true, ?_, .reference hbegins hnames, ?_⟩
    · rw [List.cons_append, ← hsplit]
    · exact fun t ht _ => head?_dropWhile_names ht
  · have hfollows : c.namesConstant = false := head?_dropWhile_names (by rw [hafter]; rfl)
    refine ⟨Nat.zero_le _, _, false, ?_, .member hbegins hnames hself hc fun _ => hfollows,
      fun t _ => follows_false t⟩
    rw [List.append_assoc, List.cons_append, List.cons_append, List.cons_append, List.nil_append,
      ← hafter, ← hsplit]

mutual

/-- Operands that are read are spelled by the grammar. -/
theorem ReadsBinary.consumed {room rank : Nat} {ts rest : List Token} {e : Expression}
    (h : ReadsBinary ctx room rank ts e rest) :
    e.nesting ≤ room ∧ (Phrase.ranked rank e).Consumed ts rest := by
  match rank, ts with
  | rank + 1, ts =>
    obtain ⟨operand, mid, hoperand, hoperators⟩ := readsBinary_succ.mp h
    have hlength := hoperand.length_lt
    obtain ⟨hroom, used, named, rfl, hspells, hfollows⟩ := hoperand.consumed
    exact hoperators.consumed hroom hspells.looser hfollows
  | 0, [] => exact absurd h not_readsBinary_nil
  | 0, t :: ts =>
    cases hop : t.unaryOp? with
    | some op =>
      obtain ⟨operand, rfl, hoperand⟩ := (readsBinary_unary hop).mp h
      obtain ⟨hroom, used, named, rfl, hspells, hfollows⟩ := hoperand.consumed
      exact ⟨hroom, t :: used, named, rfl, .unary hop hspells, hfollows⟩
    | none => exact ((readsBinary_primary hop).mp h).consumed hop
  termination_by (ts.length, rank + 2)

/-- The operators that are read after an operand extend its spelling. -/
theorem ReadsOperators.consumed {room rank : Nat} {before ts rest : List Token} {named : Bool}
    {operand e : Expression} (h : ReadsOperators ctx room rank operand ts e rest)
    (hroom : operand.nesting ≤ room) (hbefore : Spells (.ranked (rank + 1) operand) before named)
    (hfollows : ∀ t ∈ ts.head?, t.follows named) :
    e.nesting ≤ room ∧ (Phrase.ranked (rank + 1) e).Consumed (before ++ ts) rest := by
  match ts with
  | [] =>
    obtain ⟨rfl, rfl⟩ := readsOperators_nil.mp h
    exact ⟨hroom, before, named, rfl, hbefore, hfollows⟩
  | t :: ts =>
    cases hop : t.binaryOp?.filter (·.rank == rank + 1) with
    | none =>
      obtain ⟨rfl, rfl⟩ := (readsOperators_stop hop).mp h
      exact ⟨hroom, before, named, rfl, hbefore, hfollows⟩
    | some op =>
      obtain ⟨right, mid, hright, hoperators⟩ := (readsOperators_cons hop).mp h
      obtain ⟨hop', hrank⟩ := Option.filter_eq_some_iff.mp hop
      have hlength := hright.length_lt
      obtain ⟨hroom', used, named', rfl, hspells, hfollows'⟩ := hright.consumed
      have hspells' : Spells (.ranked (rank + 1) (.binary op operand right))
          (before ++ t :: used) named' :=
        .binary hop' (by simpa using hrank) hbefore (hfollows t rfl) hspells
      have hmid := hoperators.consumed (Nat.max_le.mpr ⟨hroom, hroom'⟩) hspells' hfollows'
      rwa [List.append_assoc] at hmid
  termination_by (ts.length, 0)

/-- An operand that is read is spelled by the grammar. -/
theorem ReadsPrimary.consumed {room : Nat} {t : Token} {ts rest : List Token} {e : Expression}
    (h : ReadsPrimary ctx room t ts e rest) (hunary : t.unaryOp? = none) :
    e.nesting ≤ room ∧ (Phrase.ranked 0 e).Consumed (t :: ts) rest := by
  cases hliteral : t.literal? with
  | some literal =>
    obtain ⟨rfl, rfl⟩ := (readsPrimary_literal hliteral).mp h
    exact ⟨by rw [nesting_of_literal? hliteral]; exact Nat.zero_le _, [t], false, rfl,
      .literal hunary hliteral, fun t _ => follows_false t⟩
  | none =>
    by_cases hparen : t.text = "("
    · obtain ⟨room', inner, c, rfl, rfl, hc, hinner⟩ := (readsPrimary_group hliteral hparen).mp h
      obtain ⟨hroom, used, named, rfl, hspells, hfollows⟩ := hinner.consumed
      exact ⟨Nat.succ_le_succ hroom, t :: used ++ [c], false, by simp,
        .group hliteral hparen hspells hc (hfollows c rfl), fun t _ => follows_false t⟩
    by_cases hbracket : t.text = "["
    · obtain ⟨room', els, rfl, rfl, hels⟩ := (readsPrimary_list hliteral hbracket).mp h
      obtain ⟨hroom, used, c, named, rfl, hc, hfollows, hspells⟩ := hels.consumed
      exact ⟨Nat.succ_le_succ hroom, t :: used ++ [c], false, by simp,
        .list hliteral hbracket hspells hc hfollows, fun t _ => follows_false t⟩
    by_cases harray : t.word = "array" ∧ startsWith ts "(" = true
    · obtain ⟨hword, hstarts⟩ := harray
      match ts with
      | [] => simp [startsWith] at hstarts
      | o :: ts =>
        have ho : o.word = "(" := by simpa [startsWith] using hstarts
        obtain ⟨room', els, rfl, rfl, hels⟩ := (readsPrimary_array hliteral hword ho).mp h
        obtain ⟨hroom, used, c, named, rfl, hc, hfollows, hspells⟩ := hels.consumed
        exact ⟨Nat.succ_le_succ hroom, t :: o :: used ++ [c], false, by simp,
          .array hliteral hword ho hspells hc hfollows, fun t _ => follows_false t⟩
    by_cases hbegins : t.beginsName ts
    · exact consumed_name hbegins h
    · exact absurd h (not_readsPrimary hunary hliteral hparen hbracket harray hbegins)
  termination_by (ts.length + 1, 0)

/-- The elements that are read stand before a closing bracket and are spelled by the grammar. -/
theorem ReadsElements.consumed {room : Nat} {closing : String} {ts rest : List Token}
    {els : List ArrayElement} (h : ReadsElements ctx room closing ts els rest) :
    ArrayElement.nestingOf els ≤ room ∧
      ∃ used c named, ts = used ++ c :: rest ∧ c.word = closing ∧ c.follows named ∧
        Spells (.elements closing els) used named := by
  cases hstart : startsWith ts closing with
  | true =>
    match ts with
    | [] => simp [startsWith] at hstart
    | c :: ts =>
      have hc : c.word = closing := by simpa [startsWith] using hstart
      obtain ⟨rfl, rfl⟩ := (readsElements_closing hc).mp h
      exact ⟨Nat.zero_le _, [], c, false, rfl, hc, follows_false c, .empty closing⟩
  | false =>
    obtain ⟨el, mid, els', rfl, hel, hseparator⟩ := (readsElements_cons hstart).mp h
    have hconsumed : ArrayElement.nestingOf [el] ≤ room ∧ (Phrase.element el).Consumed ts mid ∧
        mid.length < ts.length := by
      cases el with
      | positional value =>
        obtain ⟨hroom, used, named, rfl, hspells, hfollows⟩ := hel.1.consumed
        have hlength := hel.1.length_lt
        exact ⟨by simpa [ArrayElement.nestingOf] using hroom,
          ⟨used, named, rfl, .positional hspells, hfollows⟩, hlength⟩
      | keyed key value =>
        obtain ⟨arrow, mid', hkey, harrow, hvalue⟩ := hel
        have hlength := hkey.length_lt
        have hlength' := hvalue.length_lt
        simp only [List.length_cons] at hlength
        obtain ⟨hroom, used, named, rfl, hspells, hfollows⟩ := hkey.consumed
        obtain ⟨hroom', used', named', rfl, hspells', hfollows'⟩ := hvalue.consumed
        refine ⟨?_, ⟨used ++ arrow :: used', named', by simp,
          .keyed hspells harrow (hfollows arrow rfl) hspells', hfollows'⟩, by omega⟩
        simp only [ArrayElement.nestingOf]
        omega
    obtain ⟨hroom, ⟨used, named, hts, hspells, hfollows⟩, hlength⟩ := hconsumed
    have hused : startsWith used closing = false := by
      rw [hts, startsWith_append (hspells.ne_nil (by simp))] at hstart
      exact hstart
    obtain ⟨c, rest', rfl, ⟨hcomma, hels⟩ | ⟨-, hc, rfl, rfl⟩⟩ := readsSeparator_iff.mp hseparator
    · simp only [List.length_cons] at hlength
      obtain ⟨hroom', used', c', named', rfl, hc', hfollows', hspells'⟩ := hels.consumed
      refine ⟨?_, used ++ c :: used', c', named', by rw [hts]; simp, hc', hfollows',
        .more hused hspells hcomma (hfollows c rfl) hspells'⟩
      cases el <;> simp only [ArrayElement.nestingOf] at hroom ⊢ <;> omega
    · exact ⟨hroom, used, c, named, hts, hc, hfollows c rfl, .last hused hspells⟩
  termination_by (ts.length, 12)

end

/-! ## Whole lists of tokens -/

/-- The tokens spell an expression from the first one to the last one. -/
def Expression.SpelledBy (e : Expression) (ts : List Token) : Prop :=
  ∃ named, Spells (.ranked 9 e) ts named

/-- A list of tokens is read as an expression just where it spells it with brackets that fit into the
room. -/
theorem Expression.ofTokens_eq_ok_iff {room : Nat} {ts : List Token} {e : Expression} :
    Expression.ofTokens room ts = .ok e ↔ e.SpelledBy ts ∧ e.nesting ≤ room := by
  unfold Expression.ofTokens
  constructor
  · intro h
    split at h
    · cases h
    · rename_i last _
      split at h
      · cases h
      · rename_i e' hlength heq
        cases h
        obtain ⟨hroom, used, named, hts, hspells, -⟩ := ReadsBinary.consumed ⟨hlength, heq⟩
        rw [List.append_nil] at hts
        exact ⟨⟨named, hts ▸ hspells⟩, hroom⟩
      · cases h
  · intro h
    obtain ⟨⟨named, hspells⟩, hroom⟩ := h
    split
    · rename_i hnil
      exact absurd (List.getLast?_eq_none_iff.mp hnil) (hspells.ne_nil (by simp))
    · rename_i last _
      have hread : ReadsBinary ⟨last.line⟩ room 9 ts e [] := hspells.readsBinary hroom
      obtain ⟨hlength, heq⟩ := hread
      simp only [heq]

/-- A list of tokens spells one expression at most. -/
theorem Expression.SpelledBy.unique {ts : List Token} {e e' : Expression} (h : e.SpelledBy ts)
    (h' : e'.SpelledBy ts) : e = e' := by
  have hread := ofTokens_eq_ok_iff.mpr ⟨h, Nat.le_max_left e.nesting e'.nesting⟩
  have hread' := ofTokens_eq_ok_iff.mpr ⟨h', Nat.le_max_right e.nesting e'.nesting⟩
  exact Except.ok.inj (hread.symm.trans hread')

/-- Tokens have a value just where they are read as an expression of that value. -/
theorem evaluate_eq_ok_iff {lookup : ConstantLookup} {room : Nat} {ts : List Token} {v : Value} :
    evaluate lookup room ts = .ok v ↔
      ∃ e, Expression.ofTokens room ts = .ok e ∧ e.value lookup = .ok v := by
  rw [evaluate]
  constructor
  · intro hv
    split at hv
    · rename_i e he
      exact ⟨e, he, hv⟩
    · rename_i b _
      cases hbefore : b.before.mapM (Expression.value lookup) <;>
        simp [hbefore, bind, Except.bind] at hv
  · intro h
    obtain ⟨e, he, hv⟩ := h
    simp only [he, hv]

/-- The expression that tokens spell, evaluated with room enough, gives its value or its fault. -/
theorem Expression.SpelledBy.evaluate_eq {ts : List Token} {e : Expression} (h : e.SpelledBy ts)
    {room : Nat} (hroom : e.nesting ≤ room) (lookup : ConstantLookup) :
    evaluate lookup room ts = e.value lookup := by
  rw [evaluate, Expression.ofTokens_eq_ok_iff.mpr ⟨h, hroom⟩]

/-- Tokens that have a value spell an expression of that value. -/
theorem exists_spelledBy_of_evaluate {lookup : ConstantLookup} {room : Nat} {ts : List Token} {v : Value}
    (h : evaluate lookup room ts = .ok v) :
    ∃ e : Expression, e.SpelledBy ts ∧ e.nesting ≤ room ∧ e.value lookup = .ok v := by
  obtain ⟨e, he, hvalue⟩ := evaluate_eq_ok_iff.mp h
  obtain ⟨hspelled, hroom⟩ := Expression.ofTokens_eq_ok_iff.mp he
  exact ⟨e, hspelled, hroom, hvalue⟩

/-- The evaluator accepts the grammar of constant expressions and nothing else. A list of tokens that
spells an expression with few enough brackets evaluates to what the expression does, be it a value or
a fault; and a list of tokens that evaluates to a value spells an expression of that value. -/
theorem evaluate_spelling (lookup : ConstantLookup) (room : Nat) (ts : List Token) :
    (∀ e : Expression, e.SpelledBy ts → e.nesting ≤ room →
        evaluate lookup room ts = e.value lookup) ∧
      ∀ v, evaluate lookup room ts = .ok v →
        ∃ e : Expression, e.SpelledBy ts ∧ e.nesting ≤ room ∧ e.value lookup = .ok v := by
  constructor
  · intro e hspelled hroom
    exact hspelled.evaluate_eq hroom lookup
  · intro v hv
    exact exists_spelledBy_of_evaluate hv

/-- Differences group to the left, a product binds more tightly, and `self::B` is a member. -/
theorem evaluate_spelling_differences :
    ∃ (lookup : ConstantLookup) (ts : List Token) (e : Expression), e.SpelledBy ts ∧
      e.nesting ≤ 0 ∧ evaluate lookup 0 ts = e.value lookup ∧
        e.value lookup = .ok (.int (-1)) := by
  let number (text : String) : Token := ⟨.numberLiteral, text, 1, 0⟩
  let sign (text : String) : Token := ⟨.punctuation, text, 1, 0⟩
  let name (text : String) : Token := ⟨.identifier, text, 1, 0⟩
  let lookup : ConstantLookup := fun name => if name = "self::B" then some (.int 2) else none
  have hnumber (text : String) (hunary : (number text).unaryOp? = none) :
      Spells (.ranked 0 (.number text)) [number text] false := .literal hunary rfl
  have hminus : (sign "-").binaryOp? = some .subtract := by decide
  have htimes : (sign "*").binaryOp? = some .multiply := by decide
  have hbegins : (name "self").beginsName [] :=
    ⟨by decide, Option.isNone_iff_eq_none.mp (by decide), by decide, by decide,
      by simp [startsWith], .inl rfl⟩
  have hmember := Spells.member hbegins (by simp) (by decide) (rfl : (sign "::").text = "::")
    (fun _ => rfl) (m := name "B")
  have hproduct := Spells.binary htimes rfl (hnumber "4" (by decide)).looser (fun _ => rfl) hmember
  have hleft := Spells.binary hminus rfl (hnumber "10" (by decide)).looser.looser (fun _ => rfl)
    hproduct
  have hall := Spells.binary hminus rfl hleft (fun _ => rfl) (hnumber "3" (by decide)).looser
  have hspelled : Expression.SpelledBy _ _ :=
    ⟨_, hall.looser.looser.looser.looser.looser.looser.looser⟩
  have hlookup : lookup (lower (spelling [name "self"]) ++ "::" ++ (name "B").text) =
      some (.int 2) := if_pos (by decide)
  have h10 : parseNumber "10" = .ok (.int 10) := rfl
  have h4 : parseNumber "4" = .ok (.int 4) := rfl
  have h3 : parseNumber "3" = .ok (.int 3) := rfl
  refine ⟨lookup, _, _, hspelled, by decide,
    (evaluate_spelling lookup 0 _).1 _ hspelled (by decide), ?_⟩
  simp only [Expression.value, hlookup, h10, h4, h3]
  rfl

end Reflection
