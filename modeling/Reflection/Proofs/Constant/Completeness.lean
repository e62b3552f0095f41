import Reflection.Proofs.Constant.Reading

/-!
# What the grammar spells is read

The readers of constant expressions accept every spelling of the grammar, with enough room for its
brackets, and read the expression that it spells. What follows a spelling must not go on with it: the
tokens after a spelling are described by `Token.continues`.

## Main statements

* `Spells.reads`: every spelling of a phrase is read.
* `Spells.readsBinary`: every spelling of an expression is read.
-/
namespace Reflection

open Reflection.Text Token

variable {ctx : ReadContext}

namespace Token

/-- The token may stand after operands that are joined by operators up to a rank: it neither goes on
with a name nor joins the operands to another one. -/
structure Continues (t : Token) (rank : Nat) (named : Bool) : Prop where
  follows : t.follows named
  not_colons : t.text ≠ "::"
  not_paren : t.word ≠ "("
  rank_lt : ∀ op, t.binaryOp? = some op → rank < op.rank

variable {t : Token} {rank : Nat} {named : Bool}

theorem Continues.text_ne_paren (h : t.Continues rank named) : t.text ≠ "(" := by
  intro ht
  refine h.not_paren ?_
  rw [word_of_text ht]
  decide

theorem Continues.mono (h : t.Continues rank named) {rank' : Nat} (hrank : rank' ≤ rank) :
    t.Continues rank' named :=
  { h with rank_lt := fun op hop => Nat.lt_of_le_of_lt hrank (h.rank_lt op hop) }

theorem unaryOp?_of_word {s : String} (ht : t.word = s) (hs : UnaryOp.ofSpelling? s = none) :
    t.unaryOp? = none := by
  rw [unaryOp?, ht, hs]

/-- An operator stands after operands of lower ranks. -/
theorem continues_of_binaryOp? {op : BinaryOp} (hop : t.binaryOp? = some op)
    (hrank : rank < op.rank) (hfollows : t.follows named) : t.Continues rank named where
  follows := hfollows
  not_colons := by
    intro ht
    rw [binaryOp?, word_of_text ht] at hop
    exact absurd hop (by rw [show BinaryOp.ofSpelling? (lower "::") = none by decide]; simp)
  not_paren := by
    intro ht
    rw [binaryOp?, ht] at hop
    exact absurd hop (by rw [show BinaryOp.ofSpelling? "(" = none by decide]; simp)
  rank_lt := by
    intro op' hop'
    rw [hop] at hop'
    cases hop'
    exact hrank

/-- A token that spells no operator stands after every operand. -/
theorem continues_of_word {s : String} (ht : t.word = s) (hs : BinaryOp.ofSpelling? s = none)
    (hcolons : s ≠ "::") (hparen : s ≠ "(") (hfollows : t.follows named) :
    t.Continues rank named where
  follows := hfollows
  not_colons := by
    intro htext
    refine hcolons (ht.symm.trans ?_)
    rw [word_of_text htext]
    decide
  not_paren := fun hword => hparen (ht.symm.trans hword)
  rank_lt := by
    intro op hop
    rw [binaryOp?, ht, hs] at hop
    cases hop

theorem continues_of_closing {closing : String} (hclosing : closing = "]" ∨ closing = ")")
    (ht : t.word = closing) (hfollows : t.follows named) : t.Continues rank named := by
  rcases hclosing with rfl | rfl
  · exact continues_of_word ht (by decide) (by decide) (by decide) hfollows
  · exact continues_of_word ht (by decide) (by decide) (by decide) hfollows

end Token

/-- The tokens after operands that are joined by operators up to a rank. -/
def Continuation (rank : Nat) (named : Bool) (rest : List Token) : Prop :=
  ∀ t ∈ rest.head?, t.Continues rank named

theorem continuation_cons {rank : Nat} {named : Bool} {t : Token} {rest : List Token}
    (h : t.Continues rank named) : Continuation rank named (t :: rest) := by
  intro t' ht'
  cases ht'
  exact h

theorem Continuation.mono {rank rank' : Nat} {named : Bool} {rest : List Token}
    (h : Continuation rank named rest) (hrank : rank' ≤ rank) : Continuation rank' named rest :=
  fun t ht => (h t ht).mono hrank

/-- Before a continuation of the rank above, an operand stands without operators of that rank. -/
theorem readsOperators_of_continuation {room rank : Nat} {named : Bool} {e : Expression}
    {rest : List Token} (h : Continuation (rank + 1) named rest) :
    ReadsOperators ctx room rank e rest e rest := by
  cases rest with
  | nil => exact readsOperators_nil.mpr ⟨rfl, rfl⟩
  | cons t rest =>
    refine (readsOperators_stop ?_).mpr ⟨rfl, rfl⟩
    have ht := (h t rfl).rank_lt
    cases hop : t.binaryOp? with
    | none => rfl
    | some op =>
      have hlt := ht op hop
      have hne : ¬ op.rank = rank + 1 := by omega
      simp [Option.filter, hne]

/-! ## Names -/

theorem takeWhile_names {names rest : List Token} (hnames : ∀ n ∈ names, n.namesConstant = true)
    (hrest : ∀ t ∈ rest.head?, t.namesConstant = false) :
    (names ++ rest).takeWhile namesConstant = names := by
  rw [List.takeWhile_append_of_pos hnames]
  cases rest with
  | nil => simp
  | cons t rest => simp [hrest t rfl]

theorem dropWhile_names {names rest : List Token} (hnames : ∀ n ∈ names, n.namesConstant = true)
    (hrest : ∀ t ∈ rest.head?, t.namesConstant = false) :
    (names ++ rest).dropWhile namesConstant = rest := by
  rw [List.dropWhile_append_of_pos hnames]
  cases rest with
  | nil => rfl
  | cons t rest => simp [hrest t rfl]

/-- A token that begins a name before its parts does so whatever stands after them. -/
theorem Token.beginsName.append {t : Token} {names rest : List Token} (h : t.beginsName names)
    (hrest : ∀ t ∈ rest.head?, t.word ≠ "(") : t.beginsName (names ++ rest) := by
  obtain ⟨hunary, hliteral, hparen, hbracket, harray, hname⟩ := h
  refine ⟨hunary, hliteral, hparen, hbracket, ?_, hname⟩
  intro hstarts
  obtain ⟨hword, hstarts⟩ := hstarts
  cases names with
  | nil =>
    cases rest with
    | nil => simp [startsWith] at hstarts
    | cons n rest => exact hrest n rfl (by simpa [startsWith] using hstarts)
  | cons n names => exact harray ⟨hword, by simpa [startsWith] using hstarts⟩

/-! ## Phrases -/

/-- Tokens are read as the phrase that they spell, whatever continues them. At a rank with operators
of its own, the reader goes on with those that follow. -/
def Phrase.Read (ctx : ReadContext) (ts : List Token) (named : Bool) : Phrase → Prop
  | .ranked 0 e =>
    ∀ room rest, e.nesting ≤ room → Continuation 0 named rest →
      ReadsBinary ctx room 0 (ts ++ rest) e rest
  | .ranked (rank + 1) e =>
    ∀ room rest e' rest', e.nesting ≤ room → Continuation rank named rest →
      ReadsOperators ctx room rank e rest e' rest' →
        ReadsBinary ctx room (rank + 1) (ts ++ rest) e' rest'
  | .element el =>
    ∀ room rest, ArrayElement.nestingOf [el] ≤ room → Continuation 9 named rest →
      startsWith rest "=>" = false → ReadsElement ctx room (ts ++ rest) rest el
  | .elements closing els =>
    ∀ room c rest, closing = "]" ∨ closing = ")" → ArrayElement.nestingOf els ≤ room →
      c.word = closing → c.follows named →
        ReadsElements ctx room closing (ts ++ c :: rest) els rest

/-- What is read as operands of a rank is read so before a continuation of that rank. -/
theorem Phrase.Read.readsBinary {ts : List Token} {named : Bool} {rank : Nat} {e : Expression}
    (h : (Phrase.ranked rank e).Read ctx ts named) {room : Nat} {rest : List Token}
    (hroom : e.nesting ≤ room) (hrest : Continuation rank named rest) :
    ReadsBinary ctx room rank (ts ++ rest) e rest := by
  cases rank with
  | zero => exact h room rest hroom hrest
  | succ rank =>
    exact h room rest e rest hroom (hrest.mono (Nat.le_succ rank))
      (readsOperators_of_continuation hrest)

theorem startsWith_append {ts rest : List Token} {s : String} (hts : ts ≠ []) :
    startsWith (ts ++ rest) s = startsWith ts s := by
  cases ts with
  | nil => exact absurd rfl hts
  | cons t ts => rfl

/-- A spelling of an expression or of an element has a token. -/
theorem Spells.ne_nil {p : Phrase} {ts : List Token} {named : Bool} (h : Spells p ts named)
    (hp : ∀ closing, p ≠ .elements closing []) : ts ≠ [] := by
  induction h with
  | empty closing => exact absurd rfl (hp closing)
  | looser he ih => exact ih (by simp)
  | positional he ih => exact ih (by simp)
  | last hstart hel ih => exact ih (by simp)
  | literal | reference | member | group | list | array | unary | binary | keyed | more => simp

/-- Brackets take one from the room that is left for what stands between them. -/
theorem exists_room {depth room : Nat} (h : depth + 1 ≤ room) :
    ∃ room', room = room' + 1 ∧ depth ≤ room' :=
  ⟨room - 1, by omega, by omega⟩

namespace Phrase.Read

variable {ts us : List Token} {named named' : Bool}

theorem literal {t : Token} {e : Expression} (hunary : t.unaryOp? = none) (he : t.literal? = some e) :
    (Phrase.ranked 0 e).Read ctx [t] false := by
  intro room rest hroom hrest
  exact (readsBinary_primary hunary).mpr ((readsPrimary_literal he).mpr ⟨rfl, rfl⟩)

/-- A name without a member is read up to its last part. -/
theorem reference {t : Token} {names : List Token} (hbegins : t.beginsName names)
    (hnames : ∀ n ∈ names, n.namesConstant = true) :
    (Phrase.ranked 0 (.reference (spelling (t :: names)) t.line)).Read ctx (t :: names) true := by
  intro room rest hroom hrest
  have hname : ∀ t ∈ rest.head?, t.namesConstant = false := fun t ht => (hrest t ht).follows rfl
  have hbegins' : t.beginsName (names ++ rest) := hbegins.append fun t ht => (hrest t ht).not_paren
  refine (readsBinary_primary hbegins.1).mpr ((readsPrimary_name hbegins').mpr (.inl ?_))
  rw [takeWhile_names hnames hname, dropWhile_names hnames hname]
  exact ⟨rfl, rfl, fun t ht => ⟨(hrest t ht).text_ne_paren, (hrest t ht).not_colons⟩⟩

theorem member {t colons m : Token} {names : List Token} (hbegins : t.beginsName names)
    (hnames : ∀ n ∈ names, n.namesConstant = true)
    (hself : isSelfWord (lower (spelling (t :: names))) = true) (hcolons : colons.text = "::")
    (hfollows : colons.follows true) :
    (Phrase.ranked 0 (.reference (lower (spelling (t :: names)) ++ "::" ++ m.text) t.line)).Read ctx
      (t :: names ++ [colons, m]) false := by
  intro room rest hroom hrest
  have hname : ∀ t ∈ (colons :: m :: rest).head?, t.namesConstant = false := by
    intro t ht
    cases ht
    exact hfollows rfl
  have hparen : ∀ t ∈ (colons :: m :: rest).head?, t.word ≠ "(" := by
    intro t ht
    cases ht
    rw [word_of_text hcolons]
    decide
  have hbegins' : t.beginsName (names ++ colons :: m :: rest) := hbegins.append hparen
  have hts : t :: names ++ [colons, m] ++ rest = t :: (names ++ colons :: m :: rest) := by simp
  rw [hts]
  refine (readsBinary_primary hbegins.1).mpr ((readsPrimary_name hbegins').mpr (.inr ?_))
  rw [takeWhile_names hnames hname, dropWhile_names hnames hname]
  exact ⟨hself, colons, m, rfl, hcolons, rfl⟩

theorem group {o c : Token} {e : Expression} (hliteral : o.literal? = none) (ho : o.text = "(")
    (hc : c.text = ")") (hfollows : c.follows named) (he : (Phrase.ranked 9 e).Read ctx ts named) :
    (Phrase.ranked 0 (.group e)).Read ctx (o :: ts ++ [c]) false := by
  intro room rest hroom hrest
  obtain ⟨room', rfl, hroom'⟩ := exists_room hroom
  have hunary : o.unaryOp? = none := unaryOp?_of_word (word_of_text ho) (by decide)
  have hclosing : c.Continues 9 named := continues_of_closing (.inr rfl) (word_of_text hc) hfollows
  have hinner : ReadsBinary ctx room' 9 (ts ++ c :: rest) e (c :: rest) :=
    he.readsBinary hroom' (continuation_cons hclosing)
  have hts : o :: ts ++ [c] ++ rest = o :: (ts ++ c :: rest) := by simp
  rw [hts]
  exact (readsBinary_primary hunary).mpr
    ((readsPrimary_group hliteral ho).mpr ⟨room', e, c, rfl, rfl, hc, hinner⟩)

theorem list {o c : Token} {els : List ArrayElement} (hliteral : o.literal? = none)
    (ho : o.text = "[") (hc : c.word = "]") (hfollows : c.follows named)
    (hels : (Phrase.elements "]" els).Read ctx ts named) :
    (Phrase.ranked 0 (.array els)).Read ctx (o :: ts ++ [c]) false := by
  intro room rest hroom hrest
  obtain ⟨room', rfl, hroom'⟩ := exists_room hroom
  have hunary : o.unaryOp? = none := unaryOp?_of_word (word_of_text ho) (by decide)
  have hinner := hels room' c rest (.inl rfl) hroom' hc hfollows
  have hts : o :: ts ++ [c] ++ rest = o :: (ts ++ c :: rest) := by simp
  rw [hts]
  exact (readsBinary_primary hunary).mpr
    ((readsPrimary_list hliteral ho).mpr ⟨room', els, rfl, rfl, hinner⟩)

theorem array {a o c : Token} {els : List ArrayElement} (hliteral : a.literal? = none)
    (ha : a.word = "array") (ho : o.word = "(") (hc : c.word = ")") (hfollows : c.follows named)
    (hels : (Phrase.elements ")" els).Read ctx ts named) :
    (Phrase.ranked 0 (.array els)).Read ctx (a :: o :: ts ++ [c]) false := by
  intro room rest hroom hrest
  obtain ⟨room', rfl, hroom'⟩ := exists_room hroom
  have hunary : a.unaryOp? = none := unaryOp?_of_word ha (by decide)
  have hinner := hels room' c rest (.inr rfl) hroom' hc hfollows
  have hts : a :: o :: ts ++ [c] ++ rest = a :: o :: (ts ++ c :: rest) := by simp
  rw [hts]
  exact (readsBinary_primary hunary).mpr
    ((readsPrimary_array hliteral ha ho).mpr ⟨room', els, rfl, rfl, hinner⟩)

/-- Operands are joined from the left: the reader goes on with all that stands before the operator. -/
theorem binary {t : Token} {op : BinaryOp} {rank : Nat} {left right : Expression}
    (hop : t.binaryOp? = some op) (hrank : op.rank = rank + 1) (hfollows : t.follows named)
    (hleft : (Phrase.ranked (rank + 1) left).Read ctx ts named)
    (hright : (Phrase.ranked rank right).Read ctx us named') :
    (Phrase.ranked (rank + 1) (.binary op left right)).Read ctx (ts ++ t :: us) named' := by
  intro room rest e' rest' hroom hrest hoperators
  simp only [Expression.nesting] at hroom
  have hfilter : t.binaryOp?.filter (·.rank == rank + 1) = some op := by
    simp [hop, hrank]
  have hus : ReadsBinary ctx room rank (us ++ rest) right rest := hright.readsBinary (by omega) hrest
  rw [List.append_assoc, List.cons_append]
  refine hleft room (t :: (us ++ rest)) e' rest' (by omega) ?_ ?_
  · exact continuation_cons (continues_of_binaryOp? hop (by omega) hfollows)
  · exact (readsOperators_cons hfilter).mpr ⟨right, rest, hus, hoperators⟩

theorem looser {rank : Nat} {e : Expression} (he : (Phrase.ranked rank e).Read ctx ts named) :
    (Phrase.ranked (rank + 1) e).Read ctx ts named := by
  intro room rest e' rest' hroom hrest hoperators
  exact readsBinary_succ.mpr ⟨_, rest, he.readsBinary hroom hrest, hoperators⟩

theorem positional {e : Expression} (he : (Phrase.ranked 9 e).Read ctx ts named) :
    (Phrase.element (.positional e)).Read ctx ts named := by
  intro room rest hroom hrest harrow
  exact ⟨he.readsBinary (by simpa [ArrayElement.nestingOf] using hroom) hrest, harrow⟩

theorem keyed {arrow : Token} {key value : Expression} (harrow : arrow.word = "=>")
    (hfollows : arrow.follows named) (hkey : (Phrase.ranked 9 key).Read ctx ts named)
    (hvalue : (Phrase.ranked 9 value).Read ctx us named') :
    (Phrase.element (.keyed key value)).Read ctx (ts ++ arrow :: us) named' := by
  intro room rest hroom hrest _
  simp only [ArrayElement.nestingOf] at hroom
  have harrow' : arrow.Continues 9 named :=
    continues_of_word harrow (by decide) (by decide) (by decide) hfollows
  rw [List.append_assoc, List.cons_append]
  exact ⟨arrow, us ++ rest, hkey.readsBinary (by omega) (continuation_cons harrow'), harrow,
    hvalue.readsBinary (by omega) hrest⟩

theorem last {closing : String} {el : ArrayElement} (hts : ts ≠ [])
    (hstart : startsWith ts closing = false) (hel : (Phrase.element el).Read ctx ts named) :
    (Phrase.elements closing [el]).Read ctx ts named := by
  intro room c rest hclosing hroom hc hfollows
  have hstart' : startsWith (ts ++ c :: rest) closing = false := by
    rw [startsWith_append hts, hstart]
  have hnot : startsWith (c :: rest) "=>" = false := by
    rcases hclosing with rfl | rfl <;> simp [startsWith, hc]
  have hcomma : c.word ≠ "," := by
    rcases hclosing with rfl | rfl <;> simp [hc]
  have hel' := hel room (c :: rest) hroom
    (continuation_cons (continues_of_closing hclosing hc hfollows)) hnot
  exact (readsElements_cons hstart').mpr ⟨el, c :: rest, [], rfl, hel',
    readsSeparator_iff.mpr ⟨c, rest, rfl, .inr ⟨hcomma, hc, rfl, rfl⟩⟩⟩

theorem more {closing : String} {comma : Token} {el : ArrayElement} {els : List ArrayElement}
    (hts : ts ≠ []) (hstart : startsWith ts closing = false) (hcomma : comma.word = ",")
    (hfollows : comma.follows named) (hel : (Phrase.element el).Read ctx ts named)
    (hels : (Phrase.elements closing els).Read ctx us named') :
    (Phrase.elements closing (el :: els)).Read ctx (ts ++ comma :: us) named' := by
  intro room c rest hclosing hroom hc hfollows'
  have hroom' : ArrayElement.nestingOf [el] ≤ room ∧ ArrayElement.nestingOf els ≤ room := by
    cases el <;> simp only [ArrayElement.nestingOf] at hroom ⊢ <;> omega
  have hstart' : startsWith (ts ++ comma :: (us ++ c :: rest)) closing = false := by
    rw [startsWith_append hts, hstart]
  have hnot : startsWith (comma :: (us ++ c :: rest)) "=>" = false := by
    simp [startsWith, hcomma]
  have hcomma' : comma.Continues 9 named :=
    continues_of_word hcomma (by decide) (by decide) (by decide) hfollows
  have hel' := hel room (comma :: (us ++ c :: rest)) hroom'.1 (continuation_cons hcomma') hnot
  have hels' := hels room c rest hclosing hroom'.2 hc hfollows'
  rw [List.append_assoc, List.cons_append]
  exact (readsElements_cons hstart').mpr ⟨el, comma :: (us ++ c :: rest), els, rfl, hel',
    readsSeparator_iff.mpr ⟨comma, us ++ c :: rest, rfl, .inl ⟨hcomma, hels'⟩⟩⟩

end Phrase.Read

/-- Every spelling of a phrase is read, whatever continues it. -/
theorem Spells.reads {p : Phrase} {ts : List Token} {named : Bool} (h : Spells p ts named) :
    p.Read ctx ts named := by
  induction h with
  | literal hunary he => exact .literal hunary he
  | reference hbegins hnames => exact .reference hbegins hnames
  | member hbegins hnames hself hcolons hfollows => exact .member hbegins hnames hself hcolons hfollows
  | group hliteral ho he hc hfollows ih => exact .group hliteral ho hc hfollows ih
  | list hliteral ho hels hc hfollows ih => exact .list hliteral ho hc hfollows ih
  | array hliteral ha ho hels hc hfollows ih => exact .array hliteral ha ho hc hfollows ih
  | unary hop he ih =>
    exact fun room rest hroom hrest => (readsBinary_unary hop).mpr ⟨_, rfl, ih room rest hroom hrest⟩
  | binary hop hrank hleft hfollows hright ihleft ihright =>
    exact .binary hop hrank hfollows ihleft ihright
  | looser he ih => exact ih.looser
  | positional he ih => exact ih.positional
  | keyed hkey harrow hfollows hvalue ihkey ihvalue => exact .keyed harrow hfollows ihkey ihvalue
  | empty closing =>
    exact fun room c rest hclosing hroom hc hfollows => (readsElements_closing hc).mpr ⟨rfl, rfl⟩
  | last hstart hel ih => exact .last (hel.ne_nil (by simp)) hstart ih
  | more hstart hel hcomma hfollows hels ihel ihels =>
    exact .more (hel.ne_nil (by simp)) hstart hcomma hfollows ihel ihels

/-- Every spelling of an expression is read with enough room for its brackets. -/
theorem Spells.readsBinary {rank : Nat} {e : Expression} {ts : List Token} {named : Bool}
    (h : Spells (.ranked rank e) ts named) {room : Nat} (hroom : e.nesting ≤ room) :
    ReadsBinary ctx room rank ts e [] := by
  have hnil : Continuation rank named [] := fun t ht => by cases ht
  have hread : (Phrase.ranked rank e).Read ctx ts named := h.reads
  simpa using hread.readsBinary hroom hnil

end Reflection
