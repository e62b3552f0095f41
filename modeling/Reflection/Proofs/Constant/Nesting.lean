import Reflection.Proofs.Constant.Escape

/-!
# Brackets that are open at once

The room of the evaluator is the number of brackets that may be open at once. How many are open is found
by reading the tokens once from left to right, with the open brackets on a stack: what a token does to the
stack depends on its text and on whether an operand, an operator or the rest of a name may stand there, and
on nothing that follows. Over a spelling of an expression the stack comes back to what it was, and its
greatest height is the nesting of the expression. Readers with different room therefore differ just where
the stack becomes too high.

## Main definitions

* `Brackets`, `Brackets.step`, `Brackets.run`: the stack of open brackets.
* `openBrackets`: the number of brackets that are open after the first tokens of a list.

## Main statements

* `Spells.passes`: what a spelling does to the stack.
* `Expression.SpelledBy.forall_openBrackets_le_iff`: the nesting of an expression is the greatest number of
  brackets that are open at once.
* `agrees_ofTokens`: less room makes no difference but that reading breaks off at a bracket.
* `evaluate_nesting`: the limit on brackets is exact.
-/
namespace Reflection

open Reflection.Text Token

/-! ## The stack of open brackets -/

/-- The brackets of constant expressions. -/
inductive Bracket
  | paren
  | square
  deriving DecidableEq, Repr

/-- The text that closes a bracket. -/
def Bracket.closing : Bracket → String
  | paren => ")"
  | square => "]"

/-- What may stand next in an expression. -/
inductive Place
  /-- An element of an array, or the end of the array. -/
  | element
  /-- An operand. -/
  | operand
  /-- The bracket of an array after the word for it, or the rest of a name. -/
  | array
  /-- The rest of the name of a constant. -/
  | name
  /-- The member of a structure. -/
  | member
  /-- An operator, a comma, an arrow, or the end of a bracket. -/
  | operator
  deriving DecidableEq, Repr

/-- What may stand next, and the open brackets from the innermost one. -/
structure Brackets where
  place : Place
  opened : List Bracket
  deriving Repr

namespace Brackets

/-- The token closes the innermost bracket. -/
def Closes (t : Token) (opened : List Bracket) : Prop := ∃ b ∈ opened.head?, t.word = b.closing

instance (t : Token) (opened : List Bracket) : Decidable (Closes t opened) :=
  inferInstanceAs (Decidable (∃ b ∈ opened.head?, t.word = b.closing))

/-- A token where an operand may stand. -/
def atOperand (opened : List Bracket) (t : Token) : Brackets :=
  if t.unaryOp?.isSome then ⟨.operand, opened⟩
  else if t.literal?.isSome then ⟨.operator, opened⟩
  else if t.text = "(" then ⟨.operand, .paren :: opened⟩
  else if t.text = "[" then ⟨.element, .square :: opened⟩
  else if t.word = "array" then ⟨.array, opened⟩
  else ⟨.name, opened⟩

/-- A token where an operator may stand. -/
def atOperator (opened : List Bracket) (t : Token) : Brackets :=
  if Closes t opened then ⟨.operator, opened.tail⟩
  else if t.word = "," then ⟨.element, opened⟩
  else ⟨.operand, opened⟩

/-- A token where a name may go on. -/
def atName (opened : List Bracket) (t : Token) : Brackets :=
  if t.namesConstant then ⟨.name, opened⟩
  else if t.text = "::" then ⟨.member, opened⟩
  else atOperator opened t

/-- The stack after one more token. -/
def step (s : Brackets) (t : Token) : Brackets :=
  match s.place with
  | .element => if Closes t s.opened then ⟨.operator, s.opened.tail⟩ else atOperand s.opened t
  | .operand => atOperand s.opened t
  | .array => if t.word = "(" then ⟨.element, .paren :: s.opened⟩ else atName s.opened t
  | .name => atName s.opened t
  | .member => ⟨.operator, s.opened⟩
  | .operator => atOperator s.opened t

/-- The stack after more tokens. -/
def run (s : Brackets) (ts : List Token) : Brackets := ts.foldl step s

/-- The greatest height of the stack, from its present height on. -/
def peak (s : Brackets) : List Token → Nat
  | [] => s.opened.length
  | t :: ts => max s.opened.length ((s.step t).peak ts)

@[simp] theorem run_nil (s : Brackets) : s.run [] = s := rfl

@[simp] theorem run_cons (s : Brackets) (t : Token) (ts : List Token) :
    s.run (t :: ts) = (s.step t).run ts := rfl

theorem run_append (s : Brackets) (ts us : List Token) : s.run (ts ++ us) = (s.run ts).run us :=
  List.foldl_append

theorem length_le_peak (s : Brackets) (ts : List Token) : s.opened.length ≤ s.peak ts := by
  cases ts with
  | nil => exact Nat.le_refl _
  | cons t ts => exact Nat.le_max_left _ _

theorem peak_append (s : Brackets) (ts us : List Token) :
    s.peak (ts ++ us) = max (s.peak ts) ((s.run ts).peak us) := by
  induction ts generalizing s with
  | nil => exact (Nat.max_eq_right (s.length_le_peak us)).symm
  | cons t ts ih => rw [List.cons_append, peak, peak, run_cons, ih, Nat.max_assoc]

/-- The greatest height is the height after some of the tokens. -/
theorem peak_le_iff {s : Brackets} {ts : List Token} {n : Nat} :
    s.peak ts ≤ n ↔ ∀ front, front <+: ts → (s.run front).opened.length ≤ n := by
  induction ts generalizing s with
  | nil => simp [peak]
  | cons t ts ih =>
    rw [peak, Nat.max_le, ih]
    constructor
    · rintro ⟨hnow, hlater⟩ front hfront
      rcases List.prefix_cons_iff.mp hfront with rfl | ⟨front', rfl, hfront'⟩
      · exact hnow
      · exact hlater front' hfront'
    · intro h
      exact ⟨h [] (List.nil_prefix), fun front hfront =>
        h (t :: front) (List.cons_prefix_cons.mpr ⟨rfl, hfront⟩)⟩

end Brackets

/-- The number of brackets that are open after tokens at the start of an expression. -/
def openBrackets (front : List Token) : Nat := (Brackets.run ⟨.operand, []⟩ front).opened.length

/-! ## Single tokens -/

namespace Brackets

variable {t : Token} {opened : List Bracket} {b : Bracket}

theorem closes_cons : Closes t (b :: opened) ↔ t.word = b.closing := by simp [Closes]

/-- The text that closes a bracket. -/
theorem Closes.word (h : Closes t opened) : t.word = ")" ∨ t.word = "]" := by
  obtain ⟨b, -, hb⟩ := h
  cases b with
  | paren => exact .inl hb
  | square => exact .inr hb

theorem not_closes_of_word {s : String} (ht : t.word = s) (hparen : s ≠ ")") (hsquare : s ≠ "]") :
    ¬ Closes t opened := by
  intro h
  rcases h.word with hword | hword
  · exact hparen (ht.symm.trans hword)
  · exact hsquare (ht.symm.trans hword)

theorem word_ne_of_binaryOp? {op : BinaryOp} {s : String} (hop : t.binaryOp? = some op)
    (hs : BinaryOp.ofSpelling? s = none) : t.word ≠ s := by
  intro hword
  rw [binaryOp?, hword, hs] at hop
  cases hop

theorem not_closes_of_binaryOp? {op : BinaryOp} (hop : t.binaryOp? = some op) : ¬ Closes t opened := by
  intro h
  rcases h.word with hword | hword
  · exact word_ne_of_binaryOp? hop (by decide) hword
  · exact word_ne_of_binaryOp? hop (by decide) hword

theorem atOperand_unary {op : UnaryOp} (hop : t.unaryOp? = some op) :
    atOperand opened t = ⟨.operand, opened⟩ := by
  rw [atOperand, if_pos (by rw [hop]; rfl)]

theorem atOperand_literal {e : Expression} (hunary : t.unaryOp? = none) (he : t.literal? = some e) :
    atOperand opened t = ⟨.operator, opened⟩ := by
  rw [atOperand, if_neg (by rw [hunary]; exact Bool.false_ne_true), if_pos (by rw [he]; rfl)]

theorem atOperand_paren (hliteral : t.literal? = none) (ht : t.text = "(") :
    atOperand opened t = ⟨.operand, .paren :: opened⟩ := by
  have hunary : t.unaryOp? = none := unaryOp?_of_word (word_of_text ht) (by decide)
  simp [atOperand, hunary, hliteral, ht]

theorem atOperand_square (hliteral : t.literal? = none) (ht : t.text = "[") :
    atOperand opened t = ⟨.element, .square :: opened⟩ := by
  have hunary : t.unaryOp? = none := unaryOp?_of_word (word_of_text ht) (by decide)
  simp [atOperand, hunary, hliteral, ht]

theorem text_ne_of_word {s s' : String} (ht : t.word = s) (hs : s ≠ lower s') : t.text ≠ s' := by
  intro htext
  exact hs (ht.symm.trans (word_of_text htext))

theorem atOperand_array (hliteral : t.literal? = none) (ht : t.word = "array") :
    atOperand opened t = ⟨.array, opened⟩ := by
  have hunary : t.unaryOp? = none := unaryOp?_of_word ht (by decide)
  have hparen : t.text ≠ "(" := text_ne_of_word ht (by decide)
  have hsquare : t.text ≠ "[" := text_ne_of_word ht (by decide)
  simp [atOperand, hunary, hliteral, hparen, hsquare, ht]

/-- A token that begins a name opens no bracket. The word for an array begins one where no bracket
follows. -/
theorem atOperand_name {names : List Token} (ht : t.beginsName names) :
    ∃ p, atOperand opened t = ⟨p, opened⟩ ∧
      (p = .name ∨ p = .array ∧ startsWith names "(" = false) := by
  obtain ⟨hunary, hliteral, hparen, hsquare, hbracket, -⟩ := ht
  by_cases harray : t.word = "array"
  · have hstarts : startsWith names "(" = false :=
      Bool.eq_false_iff.mpr fun hstarts => hbracket ⟨harray, hstarts⟩
    exact ⟨.array, atOperand_array hliteral harray, .inr ⟨rfl, hstarts⟩⟩
  · exact ⟨.name, by simp [atOperand, hunary, hliteral, hparen, hsquare, harray], .inl rfl⟩

end Brackets

/-- Where the name of a constant may go on. -/
def Place.InName (p : Place) : Prop := p = .name ∨ p = .array

/-- What may stand after an operand: where it ends in the name of a constant, the name may go on. -/
def Place.After (p : Place) (named : Bool) : Prop := p = .operator ∨ named = true ∧ p.InName

namespace Brackets

variable {t : Token} {opened : List Bracket} {b : Bracket} {p : Place} {named : Bool}

/-- A token that does not go on with an operand is read as after an operand without a name. -/
theorem step_after (hp : p.After named) (ht : t.Continues 0 named) :
    step ⟨p, opened⟩ t = atOperator opened t := by
  have hname (hnamed : named = true) : atName opened t = atOperator opened t := by
    rw [atName, if_neg (by rw [ht.follows hnamed]; exact Bool.false_ne_true), if_neg ht.not_colons]
  rcases hp with rfl | ⟨hnamed, rfl | rfl⟩
  · rfl
  · exact hname hnamed
  · exact (if_neg ht.not_paren).trans (hname hnamed)

/-- An operator, an arrow or the like stands before a further operand. -/
theorem step_operator (hp : p.After named) (ht : t.Continues 0 named) (hcloses : ¬ Closes t opened)
    (hcomma : t.word ≠ ",") : step ⟨p, opened⟩ t = ⟨.operand, opened⟩ := by
  rw [step_after hp ht, atOperator, if_neg hcloses, if_neg hcomma]

theorem step_comma (hp : p.After named) (ht : t.word = ",") (hfollows : t.follows named) :
    step ⟨p, opened⟩ t = ⟨.element, opened⟩ := by
  have hcontinues : t.Continues 0 named :=
    continues_of_word ht (by decide) (by decide) (by decide) hfollows
  rw [step_after hp hcontinues, atOperator,
    if_neg (not_closes_of_word ht (by decide) (by decide)), if_pos ht]

/-- The end of a bracket stands where an operator may stand, and at the end of the elements of an
array. -/
theorem step_closing (hp : p.After named ∨ p = .element) (ht : t.word = b.closing)
    (hfollows : t.follows named) : step ⟨p, b :: opened⟩ t = ⟨.operator, opened⟩ := by
  rcases hp with hp | rfl
  · have hcontinues : t.Continues 0 named :=
      continues_of_closing (by cases b <;> simp [Bracket.closing]) ht hfollows
    rw [step_after hp hcontinues, atOperator, if_pos (closes_cons.mpr ht), List.tail_cons]
  · exact if_pos (closes_cons.mpr ht)

end Brackets

/-! ## Spellings -/

open Brackets

/-- Over the tokens the stack rises by a number of brackets, and comes back to what it was. -/
structure Brackets.Passes (s : Brackets) (ts : List Token) (ends : Place → Prop) (rise : Nat) :
    Prop where
  restored : ∃ p, ends p ∧ s.run ts = ⟨p, s.opened⟩
  peak_eq : s.peak ts = s.opened.length + rise

namespace Brackets.Passes

variable {s : Brackets} {ts us : List Token} {ends ends' : Place → Prop} {rise rise' : Nat}

theorem mono (h : s.Passes ts ends rise) (hends : ∀ p, ends p → ends' p) : s.Passes ts ends' rise := by
  obtain ⟨p, hp, hrun⟩ := h.restored
  exact ⟨⟨p, hends p hp, hrun⟩, h.peak_eq⟩

/-- Tokens that stand side by side do not add up their brackets. -/
theorem append (h : s.Passes ts ends rise)
    (hnext : ∀ p, ends p → Passes ⟨p, s.opened⟩ us ends' rise') :
    s.Passes (ts ++ us) ends' (max rise rise') := by
  obtain ⟨p, hp, hrun⟩ := h.restored
  have hus := hnext p hp
  refine ⟨?_, ?_⟩
  · rw [run_append, hrun]
    exact hus.restored
  · rw [peak_append, hrun, h.peak_eq, hus.peak_eq, Nat.add_max_add_left]

/-- A token that leaves the open brackets as they are. -/
theorem cons {t : Token} {p : Place} (ht : s.step t = ⟨p, s.opened⟩)
    (h : Passes ⟨p, s.opened⟩ ts ends rise) : s.Passes (t :: ts) ends rise := by
  refine ⟨?_, ?_⟩
  · rw [run_cons, ht]
    exact h.restored
  · rw [peak, ht, h.peak_eq]
    exact Nat.max_eq_right (Nat.le_add_right _ _)

/-- Tokens between a bracket and its end. -/
theorem bracket {t c : Token} {p : Place} {b : Bracket}
    (ht : s.step t = ⟨p, b :: s.opened⟩) (h : Passes ⟨p, b :: s.opened⟩ ts ends rise)
    (hc : ∀ p, ends p → step ⟨p, b :: s.opened⟩ c = ⟨.operator, s.opened⟩) :
    s.Passes (t :: ts ++ [c]) (· = .operator) (rise + 1) := by
  obtain ⟨p', hp', hrun⟩ := h.restored
  refine ⟨⟨.operator, rfl, ?_⟩, ?_⟩
  · rw [List.cons_append, run_cons, ht, run_append, hrun, run_cons, hc p' hp', run_nil]
  · rw [List.cons_append, peak, ht, peak_append, h.peak_eq, hrun, peak, hc p' hp']
    simp only [peak, List.length_cons]
    omega

end Brackets.Passes

/-- Tokens may stand as an operand: an operand may stand there, or an element that does not close the
array. -/
def Brackets.TakesOperand (s : Brackets) (ts : List Token) : Prop :=
  s.place = .operand ∨ s.place = .element ∧ ∀ t ∈ ts.head?, ¬ Closes t s.opened

/-- Where an operand may stand, the first token of one is read as such. -/
theorem Brackets.Passes.of_operand {s : Brackets} {ts : List Token} {ends : Place → Prop} {rise : Nat}
    (h : Passes ⟨.operand, s.opened⟩ ts ends rise) (hts : ts ≠ []) (hs : s.TakesOperand ts) :
    s.Passes ts ends rise := by
  cases ts with
  | nil => exact absurd rfl hts
  | cons t ts =>
    have hstep : s.step t = step ⟨.operand, s.opened⟩ t := by
      unfold step
      rcases hs with hplace | ⟨hplace, hcloses⟩
      · rw [hplace]
      · rw [hplace]
        exact if_neg (hcloses t rfl)
    refine ⟨?_, ?_⟩
    · rw [run_cons, hstep]
      exact h.restored
    · rw [peak, hstep]
      exact h.peak_eq

/-- Elements that do not start with the end of their array. -/
theorem Brackets.takesOperand_element {ts : List Token} {opened : List Bracket} {b : Bracket}
    (hstart : startsWith ts b.closing = false) : TakesOperand ⟨.element, b :: opened⟩ ts := by
  refine .inr ⟨rfl, fun t ht => ?_⟩
  rw [closes_cons]
  rw [startsWith, Option.mem_def.mp ht] at hstart
  simpa using hstart

/-- A name opens no bracket. -/
theorem Brackets.passes_name {t : Token} {names : List Token} {opened : List Bracket}
    (hbegins : t.beginsName names) (hnames : ∀ n ∈ names, n.namesConstant = true) :
    Passes ⟨.operand, opened⟩ (t :: names) Place.InName 0 := by
  have hinName : ∀ names : List Token, (∀ n ∈ names, n.namesConstant = true) →
      Passes ⟨.name, opened⟩ names Place.InName 0 := by
    intro names hnames
    induction names with
    | nil => exact ⟨⟨.name, .inl rfl, rfl⟩, rfl⟩
    | cons n names ih =>
      obtain ⟨hn, hnames⟩ := List.forall_mem_cons.mp hnames
      exact .cons (if_pos hn) (ih hnames)
  obtain ⟨p, hstep, hp⟩ : ∃ p, atOperand opened t = ⟨p, opened⟩ ∧
      (p = .name ∨ p = .array ∧ startsWith names "(" = false) := atOperand_name hbegins
  rcases hp with rfl | ⟨rfl, hstarts⟩
  · exact .cons hstep (hinName names hnames)
  · refine .cons hstep ?_
    cases names with
    | nil => exact ⟨⟨.array, .inr rfl, rfl⟩, rfl⟩
    | cons n names =>
      obtain ⟨hn, hnames⟩ := List.forall_mem_cons.mp hnames
      have hparen : n.word ≠ "(" := by simpa [startsWith] using hstarts
      exact .cons ((if_neg hparen).trans (if_pos hn)) (hinName names hnames)

/-- What a spelling of a phrase does to the stack, whatever brackets are open before it. -/
def Phrase.Restores (ts : List Token) (named : Bool) : Phrase → Prop
  | .ranked _ e => ∀ opened, Passes ⟨.operand, opened⟩ ts (·.After named) e.nesting
  | .element el =>
    ∀ opened, Passes ⟨.operand, opened⟩ ts (·.After named) (ArrayElement.nestingOf [el])
  | .elements closing els => ∀ opened (b : Bracket), closing = b.closing →
      Passes ⟨.element, b :: opened⟩ ts (fun p => p.After named ∨ p = .element)
        (ArrayElement.nestingOf els)

theorem ArrayElement.nestingOf_cons (el : ArrayElement) (els : List ArrayElement) :
    nestingOf (el :: els) = max (nestingOf [el]) (nestingOf els) := by
  cases el <;> simp [nestingOf]

/-- A spelling of a phrase opens as many brackets at once as the phrase is deep, and closes all that it
opens. -/
theorem Spells.passes {p : Phrase} {ts : List Token} {named : Bool} (h : Spells p ts named) :
    p.Restores ts named := by
  induction h with
  | literal hunary he =>
    intro opened
    refine Passes.cons (atOperand_literal hunary he) ⟨⟨.operator, .inl rfl, rfl⟩, ?_⟩
    rw [nesting_of_literal? he]
    rfl
  | reference hbegins hnames =>
    exact fun opened => (passes_name hbegins hnames).mono fun p hp => .inr ⟨rfl, hp⟩
  | @member t colons m names hbegins hnames hself hcolons hfollows =>
    intro opened
    refine (passes_name hbegins hnames).append fun p hp => ?_
    have hname : atName opened colons = ⟨.member, opened⟩ := by
      rw [atName, if_neg (by rw [hfollows rfl]; exact Bool.false_ne_true), if_pos hcolons]
    have hparen : colons.word ≠ "(" := by
      rw [word_of_text hcolons]
      decide
    have hstep : step ⟨p, opened⟩ colons = ⟨.member, opened⟩ := by
      rcases hp with rfl | rfl
      · exact hname
      · exact (if_neg hparen).trans hname
    exact .cons hstep ⟨⟨.operator, .inl rfl, rfl⟩, Nat.max_self _⟩
  | group hliteral ho he hc hfollows ih =>
    intro opened
    have hinside := Passes.bracket (s := ⟨.operand, opened⟩) (atOperand_paren hliteral ho) (ih _)
      fun p hp => step_closing (.inl hp) (word_of_text hc) hfollows
    exact hinside.mono fun p hp => .inl hp
  | list hliteral ho hels hc hfollows ih =>
    intro opened
    have hinside := Passes.bracket (s := ⟨.operand, opened⟩) (atOperand_square hliteral ho)
      (ih _ .square rfl) fun p hp => step_closing hp hc hfollows
    exact hinside.mono fun p hp => .inl hp
  | array hliteral ha ho hels hc hfollows ih =>
    intro opened
    have hinside := Passes.bracket (s := ⟨.array, opened⟩) (if_pos ho) (ih _ .paren rfl)
      fun p hp => step_closing hp hc hfollows
    exact .cons (atOperand_array hliteral ha) (hinside.mono fun p hp => .inl hp)
  | unary hop he ih => exact fun opened => Passes.cons (atOperand_unary hop) (ih opened)
  | binary hop hrank hleft hfollows hright ihleft ihright =>
    intro opened
    refine (ihleft opened).append fun p hp => Passes.cons ?_ (ihright opened)
    exact step_operator hp (continues_of_binaryOp? hop (by omega) hfollows)
      (not_closes_of_binaryOp? hop) (word_ne_of_binaryOp? hop (by decide))
  | looser he ih => exact ih
  | positional he ih => simpa [Phrase.Restores, ArrayElement.nestingOf] using ih
  | keyed hkey harrow hfollows hvalue ihkey ihvalue =>
    intro opened
    rw [show ArrayElement.nestingOf [.keyed _ _] = _ from Nat.max_zero _]
    refine (ihkey opened).append fun p hp => Passes.cons ?_ (ihvalue opened)
    refine step_operator hp ?_ (not_closes_of_word harrow (by decide) (by decide)) ?_
    · exact continues_of_word harrow (by decide) (by decide) (by decide) hfollows
    · rw [harrow]
      decide
  | empty closing => exact fun opened b _ => ⟨⟨.element, .inr rfl, rfl⟩, rfl⟩
  | last hstart hel ih =>
    rintro opened b rfl
    have hel' := (ih (b :: opened)).of_operand (hel.ne_nil (by simp)) (takesOperand_element hstart)
    exact hel'.mono fun p hp => .inl hp
  | more hstart hel hcomma hfollows hels ihel ihels =>
    rintro opened b rfl
    rw [ArrayElement.nestingOf_cons]
    have hel' := (ihel (b :: opened)).of_operand (hel.ne_nil (by simp)) (takesOperand_element hstart)
    exact hel'.append fun p hp => .cons (step_comma hp hcomma hfollows) (ihels opened b rfl)

/-! ## Less room -/

/-- Reading breaks off where one bracket too many is opened. -/
def BreaksAtBracket {α : Type} (x : Except Broken α) : Prop :=
  ∃ b, x = .error b ∧ b.cause = .nestedTooDeeply

/-- Two readings do the same, unless the first one breaks off at a bracket. -/
def Agrees {α : Type} (x y : Except Broken α) : Prop := x = y ∨ BreaksAtBracket x

theorem BreaksAtBracket.error {α : Type} {b : Broken} (h : b.cause = .nestedTooDeeply) :
    BreaksAtBracket (.error b : Except Broken α) := ⟨b, rfl, h⟩

theorem Agrees.ite {α : Type} {c : Prop} [Decidable c] {x y x' y' : Except Broken α}
    (hpos : Agrees x y) (hneg : Agrees x' y') :
    Agrees (if c then x else x') (if c then y else y') := by
  split
  · exact hpos
  · exact hneg

variable {ctx : ReadContext}

mutual

theorem agrees_readBinary {room room' : Nat} (hroom : room ≤ room') (rank : Nat) (ts : List Token) :
    Agrees (readBinary ctx room rank ts) (readBinary ctx room' rank ts) := by
  match rank with
  | 0 =>
    rw [readBinary.eq_1, readBinary.eq_1]
    exact agrees_readUnary hroom ts
  | rank + 1 =>
    rw [readBinary.eq_2, readBinary.eq_2]
    rcases agrees_readBinary hroom rank ts with heq | ⟨b, hb, hcause⟩
    · rw [heq]
      cases readBinary ctx room' rank ts with
      | error b => exact .inl rfl
      | ok reading =>
        obtain ⟨left, rest, hlength⟩ := reading
        dsimp only
        rcases agrees_readOperators hroom rank left rest with heq | ⟨b, hb, hcause⟩
        · rw [heq]
          exact .inl rfl
        · rw [hb]
          exact .inr (.error hcause)
    · rw [hb]
      exact .inr (.error hcause)
  termination_by (ts.length, rank + 2)

theorem agrees_readOperators {room room' : Nat} (hroom : room ≤ room') (rank : Nat) (left : Expression)
    (ts : List Token) :
    Agrees (readOperators ctx room rank left ts) (readOperators ctx room' rank left ts) := by
  match ts with
  | [] =>
    rw [readOperators, readOperators]
    exact .inl rfl
  | t :: rest =>
    rw [readOperators, readOperators]
    cases t.binaryOp?.filter (·.rank == rank + 1) with
    | none => exact .inl rfl
    | some op =>
      dsimp only
      rcases agrees_readBinary hroom rank rest with heq | ⟨b, hb, hcause⟩
      · rw [heq]
        cases readBinary ctx room' rank rest with
        | error b => exact .inl rfl
        | ok reading =>
          obtain ⟨right, rest', hlength⟩ := reading
          dsimp only
          rcases agrees_readOperators hroom rank (.binary op left right) rest' with
            heq | ⟨b, hb, hcause⟩
          · rw [heq]
            exact .inl rfl
          · rw [hb]
            exact .inr (.error hcause)
      · rw [hb]
        exact .inr (.error hcause)
  termination_by (ts.length, 0)

theorem agrees_readUnary {room room' : Nat} (hroom : room ≤ room') (ts : List Token) :
    Agrees (readUnary ctx room ts) (readUnary ctx room' ts) := by
  match ts with
  | [] =>
    rw [readUnary, readUnary]
    exact .inl rfl
  | t :: rest =>
    rw [readUnary, readUnary]
    cases t.unaryOp? with
    | none => exact agrees_readPrimary hroom t rest
    | some op =>
      dsimp only
      rcases agrees_readUnary hroom rest with heq | ⟨b, hb, hcause⟩
      · rw [heq]
        exact .inl rfl
      · rw [hb]
        exact .inr (.error hcause)
  termination_by (ts.length, 1)

/-- Without room a bracket breaks the reading off; with room its inside is read with one bracket less. -/
theorem agrees_readPrimary {room room' : Nat} (hroom : room ≤ room') (t : Token) (rest : List Token) :
    Agrees (readPrimary ctx room t rest) (readPrimary ctx room' t rest) := by
  rw [readPrimary.eq_def ctx room, readPrimary.eq_def ctx room']
  refine .ite (.inl rfl) (.ite (.inl rfl) (.ite (.inl rfl) (.ite (.inl rfl) (.ite (.inl rfl)
    (.ite ?_ (.ite ?_ (.ite ?_ (.inl rfl))))))))
  · match room, room', hroom with
    | 0, _, _ => exact .inr (.error rfl)
    | room + 1, room' + 1, hroom =>
      dsimp only
      rcases agrees_readBinary (Nat.le_of_succ_le_succ hroom) 9 rest with heq | ⟨b, hb, hcause⟩
      · rw [heq]
        exact .inl rfl
      · rw [hb]
        exact .inr (.error hcause)
  · match room, room', hroom with
    | 0, _, _ => exact .inr (.error rfl)
    | room + 1, room' + 1, hroom =>
      dsimp only
      rcases agrees_readElements (Nat.le_of_succ_le_succ hroom) "]" rest with heq | ⟨b, hb, hcause⟩
      · rw [heq]
        exact .inl rfl
      · rw [hb]
        exact .inr (.error hcause)
  · match room, room', rest, hroom with
    | 0, _, _, _ => exact .inr (.error rfl)
    | room + 1, room' + 1, [], _ => exact .inl rfl
    | room + 1, room' + 1, o :: rest, hroom =>
      dsimp only
      rcases agrees_readElements (Nat.le_of_succ_le_succ hroom) ")" rest with
        heq | ⟨b, hb, hcause⟩
      · rw [heq]
        exact .inl rfl
      · rw [hb]
        exact .inr (.error hcause)
  termination_by (rest.length + 1, 0)

theorem agrees_readElements {room room' : Nat} (hroom : room ≤ room') (closing : String) (ts : List Token) :
    Agrees (readElements ctx room closing ts) (readElements ctx room' closing ts) := by
  match ts with
  | [] =>
    rw [readElements, readElements]
    exact .inl rfl
  | t :: rest =>
    rw [readElements, readElements]
    split
    · exact .inl rfl
    rcases agrees_readBinary hroom 9 (t :: rest) with heq | ⟨b, hb, hcause⟩
    · rw [heq]
      cases readBinary ctx room' 9 (t :: rest) with
      | error b => exact .inl rfl
      | ok reading =>
        obtain ⟨first, left, hlength⟩ := reading
        dsimp only
        split
        · have htail : left.length - 1 < rest.length + 1 := by
            simp only [List.length_cons] at hlength
            omega
          rcases agrees_readBinary hroom 9 left.tail with heq | ⟨b, hb, hcause⟩
          · rw [heq]
            cases readBinary ctx room' 9 left.tail with
            | error b => exact .inl rfl
            | ok reading =>
              obtain ⟨value, left', hlength'⟩ := reading
              have hlt : left'.length < (t :: rest).length := by
                simp only [List.length_tail, List.length_cons] at hlength' ⊢
                omega
              dsimp only
              rcases agrees_readSeparator hroom closing left' with heq | ⟨b, hb, hcause⟩
              · rw [heq]
                exact .inl rfl
              · rw [hb]
                exact .inr (.error hcause)
          · rw [hb]
            exact .inr (.error hcause)
        · rcases agrees_readSeparator hroom closing left with heq | ⟨b, hb, hcause⟩
          · rw [heq]
            exact .inl rfl
          · rw [hb]
            exact .inr (.error hcause)
    · rw [hb]
      exact .inr (.error hcause)
  termination_by (ts.length, 12)

theorem agrees_readSeparator {room room' : Nat} (hroom : room ≤ room') (closing : String)
    (ts : List Token) :
    Agrees (readSeparator ctx room closing ts) (readSeparator ctx room' closing ts) := by
  match ts with
  | [] =>
    rw [readSeparator, readSeparator]
    exact .inl rfl
  | t :: rest =>
    rw [readSeparator, readSeparator]
    split
    · rcases agrees_readElements hroom closing rest with heq | ⟨b, hb, hcause⟩
      · rw [heq]
        exact .inl rfl
      · rw [hb]
        exact .inr (.error hcause)
    · exact .inl rfl
  termination_by (ts.length, 0)

end

/-- Less room makes no difference, unless reading breaks off at a bracket. -/
theorem agrees_ofTokens {room room' : Nat} (hroom : room ≤ room') (ts : List Token) :
    Agrees (Expression.ofTokens room ts) (Expression.ofTokens room' ts) := by
  unfold Expression.ofTokens
  cases ts.getLast? with
  | none => exact .inl rfl
  | some last =>
    dsimp only
    rcases agrees_readBinary hroom 9 ts with heq | ⟨b, hb, hcause⟩
    · rw [heq]
      exact .inl rfl
    · rw [hb]
      exact .inr (.error hcause)

/-! ## The limit on brackets -/

namespace Expression.SpelledBy

variable {e : Expression} {ts : List Token}

/-- The nesting of an expression is the greatest number of brackets that are open at once. -/
theorem forall_openBrackets_le_iff (h : e.SpelledBy ts) {room : Nat} :
    (∀ front, front <+: ts → openBrackets front ≤ room) ↔ e.nesting ≤ room := by
  obtain ⟨named, hspells⟩ := h
  have hpeak : peak ⟨.operand, []⟩ ts = 0 + e.nesting := (hspells.passes []).peak_eq
  rw [← Nat.zero_add e.nesting, ← hpeak]
  exact peak_le_iff.symm

/-- An expression closes the brackets that it opens. -/
theorem openBrackets_append (h : e.SpelledBy ts) {front : List Token}
    (hfront : (run ⟨.operand, []⟩ front).TakesOperand ts) :
    openBrackets (front ++ ts) = openBrackets front := by
  obtain ⟨named, hspells⟩ := h
  cases hstate : run ⟨.operand, []⟩ front with
  | mk place opened =>
    rw [hstate] at hfront
    obtain ⟨p, -, hrun⟩ :=
      ((hspells.passes opened).of_operand (hspells.ne_nil (by simp)) hfront).restored
    rw [openBrackets, openBrackets, run_append, hstate, hrun]

/-- An expression that is too deep for the room breaks off at a bracket. -/
theorem breaksAtBracket (h : e.SpelledBy ts) {room : Nat} (hroom : room < e.nesting) :
    BreaksAtBracket (Expression.ofTokens room ts) := by
  have hread : Expression.ofTokens e.nesting ts = .ok e := ofTokens_eq_ok_iff.mpr ⟨h, Nat.le_refl _⟩
  rcases agrees_ofTokens (Nat.le_of_lt hroom) ts with heq | hbreaks
  · have hfits : e.nesting ≤ room := (ofTokens_eq_ok_iff.mp (heq.trans hread)).2
    omega
  · exact hbreaks

end Expression.SpelledBy

/-- The limit on brackets is exact. Tokens that have a value never have more brackets open at once than
there is room for. An expression that never has more open is read and evaluated as if there were no limit,
and one that has more open breaks off at a bracket; the brackets that stand side by side do not add up, as
an expression closes all that it opens, wherever it stands. -/
theorem evaluate_nesting (lookup : ConstantLookup) (room : Nat) (ts : List Token) :
    (∀ v, evaluate lookup room ts = .ok v → ∀ front, front <+: ts → openBrackets front ≤ room) ∧
      ∀ e : Expression, e.SpelledBy ts →
        ((∀ front, front <+: ts → openBrackets front ≤ room) →
          Expression.ofTokens room ts = .ok e ∧ evaluate lookup room ts = e.value lookup ∧
            ∀ line, evaluate lookup room ts ≠ .error (.unsupported .nestedTooDeeply line)) ∧
        (∀ front, front <+: ts → room < openBrackets front →
          BreaksAtBracket (Expression.ofTokens room ts)) ∧
        ∀ front, (Brackets.run ⟨.operand, []⟩ front).TakesOperand ts →
          openBrackets (front ++ ts) = openBrackets front := by
  refine ⟨?_, fun e hspelled => ⟨?_, ?_, fun front => hspelled.openBrackets_append⟩⟩
  · intro v hv
    obtain ⟨e, hspelled, hroom, -⟩ := exists_spelledBy_of_evaluate hv
    exact hspelled.forall_openBrackets_le_iff.mpr hroom
  · intro hopen
    have hroom : e.nesting ≤ room := hspelled.forall_openBrackets_le_iff.mp hopen
    have hvalue : evaluate lookup room ts = e.value lookup :=
      hspelled.evaluate_eq hroom lookup
    refine ⟨Expression.ofTokens_eq_ok_iff.mpr ⟨hspelled, hroom⟩, hvalue, fun line hline => ?_⟩
    exact (e.faultsOnly_value _ (hvalue.symm.trans hline)).1 trivial
  · intro front hfront hlt
    refine hspelled.breaksAtBracket (Nat.lt_of_not_le fun hroom => ?_)
    exact Nat.not_le_of_lt hlt (hspelled.forall_openBrackets_le_iff.mpr hroom front hfront)

/-- Two brackets side by side in a third one need room for two. -/
theorem evaluate_nesting_sideBySide :
    ∃ (lookup : ConstantLookup) (ts : List Token) (e : Expression) (v : Value),
      e.SpelledBy ts ∧ evaluate lookup 2 ts = .ok v ∧
        (∀ front, front <+: ts → openBrackets front ≤ 2) ∧
        Expression.ofTokens 2 ts = .ok e ∧ BreaksAtBracket (Expression.ofTokens 1 ts) ∧
        openBrackets (ts.take 1 ++ ts) = openBrackets (ts.take 1) := by
  let number : Token := ⟨.numberLiteral, "1", 1, 0⟩
  let sign (text : String) : Token := ⟨.punctuation, text, 1, 0⟩
  let lookup : ConstantLookup := fun _ => none
  have hsquare : (sign "[").literal? = none := Option.isNone_iff_eq_none.mp (by decide)
  have hparen : (sign "(").literal? = none := Option.isNone_iff_eq_none.mp (by decide)
  have hnumber : Spells (.ranked 9 (.number "1")) [number] false :=
    (Spells.literal (by decide) rfl).loosen (Nat.zero_le 9)
  have hinner : Spells (.ranked 9 (.array [.positional (.number "1")]))
      [sign "[", number, sign "]"] false :=
    (Spells.list hsquare rfl (.last (by decide) (.positional hnumber)) (by decide)
      (fun h => by cases h)).loosen (Nat.zero_le 9)
  have hgroup : Spells (.ranked 9 (.group (.number "1"))) [sign "(", number, sign ")"] false :=
    (Spells.group hparen rfl hnumber rfl (fun h => by cases h)).loosen (Nat.zero_le 9)
  have hels : Spells (.elements "]" [.positional (.array [.positional (.number "1")]),
      .positional (.group (.number "1"))])
      [sign "[", number, sign "]", sign ",", sign "(", number, sign ")"] false :=
    .more (by decide) (.positional hinner) (by decide) (fun h => by cases h)
      (.last (by decide) (.positional hgroup))
  let ts : List Token :=
    [sign "[", sign "[", number, sign "]", sign ",", sign "(", number, sign ")", sign "]"]
  let e : Expression := .array [.positional (.array [.positional (.number "1")]),
    .positional (.group (.number "1"))]
  have hspelled : e.SpelledBy ts :=
    ⟨false, (Spells.list hsquare rfl hels (by decide) (fun h => by cases h)).loosen (Nat.zero_le 9)⟩
  have hone : parseNumber "1" = .ok (.int 1) := rfl
  have hvalue : e.value lookup = .ok (.list [.list [.int 1], .int 1]) := by
    simp only [e, Expression.value, ArrayElement.values, hone]
    rfl
  have hv : evaluate lookup 2 ts = .ok (.list [.list [.int 1], .int 1]) :=
    (hspelled.evaluate_eq (by decide) lookup).trans hvalue
  have hopen := (evaluate_nesting lookup 2 ts).1 _ hv
  have hdeep : openBrackets (ts.take 2) = 2 := by decide
  have hfront : (run ⟨.operand, []⟩ (ts.take 1)).TakesOperand ts :=
    .inr ⟨by decide, by decide⟩
  exact ⟨lookup, ts, e, _, hspelled, hv, hopen,
    (((evaluate_nesting lookup 2 ts).2 e hspelled).1 hopen).1,
    ((evaluate_nesting lookup 1 ts).2 e hspelled).2.1 (ts.take 2) (List.take_prefix 2 ts)
      (by rw [hdeep]; exact Nat.lt_succ_self 1),
    ((evaluate_nesting lookup 2 ts).2 e hspelled).2.2 (ts.take 1) hfront⟩

end Reflection
