import Reflection.Proofs.Constant.Grammar
import Reflection.Proofs.Token

/-!
# What the readers of constant expressions accept

A reader succeeds on a list of tokens with an expression and the tokens after it. For each reader one
statement says when that is so in terms of the readers that it calls; proofs about successful readings
use these statements and do not open the readers.

## Main definitions

* `ReadsBinary`, `ReadsOperators`, `ReadsPrimary`, `ReadsElements`, `ReadsSeparator`: success of the
  readers.
-/
namespace Reflection

open Reflection.Text Token

variable {ctx : ReadContext} {room rank : Nat} {closing : String}

/-- The reader of operands joined by operators up to a rank succeeds. -/
def ReadsBinary (ctx : ReadContext) (room rank : Nat) (ts : List Token) (e : Expression)
    (left : List Token) : Prop :=
  ∃ h, readBinary ctx room rank ts = .ok ⟨e, left, h⟩

/-- The reader of the operators after an operand succeeds. -/
def ReadsOperators (ctx : ReadContext) (room rank : Nat) (operand : Expression) (ts : List Token)
    (e : Expression) (left : List Token) : Prop :=
  ∃ h, readOperators ctx room rank operand ts = .ok ⟨e, left, h⟩

/-- The reader of an operand that starts with a token succeeds. -/
def ReadsPrimary (ctx : ReadContext) (room : Nat) (t : Token) (rest : List Token) (e : Expression)
    (left : List Token) : Prop :=
  ∃ h, readPrimary ctx room t rest = .ok ⟨e, left, h⟩

/-- The reader of the elements of an array succeeds. -/
def ReadsElements (ctx : ReadContext) (room : Nat) (closing : String) (ts : List Token)
    (elements : List ArrayElement) (left : List Token) : Prop :=
  ∃ h, readElements ctx room closing ts = .ok ⟨elements, left, h⟩

/-- The reader of what follows an element succeeds. -/
def ReadsSeparator (ctx : ReadContext) (room : Nat) (closing : String) (ts : List Token)
    (elements : List ArrayElement) (left : List Token) : Prop :=
  ∃ h, readSeparator ctx room closing ts = .ok ⟨elements, left, h⟩

theorem ReadsBinary.length_lt {ts left : List Token} {e : Expression}
    (h : ReadsBinary ctx room rank ts e left) : left.length < ts.length := h.1

theorem readsBinary_succ {ts left : List Token} {e : Expression} :
    ReadsBinary ctx room (rank + 1) ts e left ↔
      ∃ operand rest, ReadsBinary ctx room rank ts operand rest ∧
        ReadsOperators ctx room rank operand rest e left := by
  unfold ReadsBinary ReadsOperators
  rw [readBinary]
  constructor
  · rintro ⟨h, heq⟩
    split at heq
    · cases heq
    · rename_i operand rest h₁ heq₁
      split at heq
      · cases heq
      · rename_i e' rest' h₂ heq₂
        cases heq
        exact ⟨operand, rest, ⟨h₁, heq₁⟩, h₂, heq₂⟩
  · rintro ⟨operand, rest, ⟨h₁, heq₁⟩, h₂, heq₂⟩
    refine ⟨by omega, ?_⟩
    simp only [heq₁, heq₂]

theorem readsOperators_nil {operand e : Expression} {left : List Token} :
    ReadsOperators ctx room rank operand [] e left ↔ e = operand ∧ left = [] := by
  unfold ReadsOperators
  rw [readOperators]
  constructor
  · rintro ⟨h, heq⟩
    cases heq
    exact ⟨rfl, rfl⟩
  · rintro ⟨rfl, rfl⟩
    exact ⟨by simp, rfl⟩

/-- A token that is no operator of the rank above ends the operators of that rank. -/
theorem readsOperators_stop {operand e : Expression} {t : Token} {rest left : List Token}
    (ht : t.binaryOp?.filter (·.rank == rank + 1) = none) :
    ReadsOperators ctx room rank operand (t :: rest) e left ↔ e = operand ∧ left = t :: rest := by
  unfold ReadsOperators
  rw [readOperators]
  constructor
  · rintro ⟨h, heq⟩
    split at heq
    · cases heq
      exact ⟨rfl, rfl⟩
    · simp_all
  · rintro ⟨rfl, rfl⟩
    refine ⟨by simp, ?_⟩
    split
    · rfl
    · simp_all

theorem readsOperators_cons {operand e : Expression} {t : Token} {rest left : List Token}
    {op : BinaryOp} (ht : t.binaryOp?.filter (·.rank == rank + 1) = some op) :
    ReadsOperators ctx room rank operand (t :: rest) e left ↔
      ∃ right rest', ReadsBinary ctx room rank rest right rest' ∧
        ReadsOperators ctx room rank (.binary op operand right) rest' e left := by
  unfold ReadsOperators ReadsBinary
  rw [readOperators]
  constructor
  · rintro ⟨h, heq⟩
    split at heq
    · simp_all
    · rename_i op' hop
      obtain rfl : op = op' := by simpa using ht.symm.trans hop
      split at heq
      · cases heq
      · rename_i right rest' h₁ heq₁
        split at heq
        · cases heq
        · rename_i e' rest'' h₂ heq₂
          cases heq
          exact ⟨right, rest', ⟨h₁, heq₁⟩, h₂, heq₂⟩
  · rintro ⟨right, rest', ⟨h₁, heq₁⟩, h₂, heq₂⟩
    refine ⟨by simp only [List.length_cons]; omega, ?_⟩
    split
    · simp_all
    · rename_i op' hop
      obtain rfl : op = op' := by simpa using ht.symm.trans hop
      simp only [heq₁, heq₂]

theorem not_readsBinary_nil {e : Expression} {left : List Token} :
    ¬ ReadsBinary ctx room rank [] e left := fun h => Nat.not_lt_zero _ h.length_lt

/-- An operator before an operand applies to what the rest reads. -/
theorem readsBinary_unary {e : Expression} {t : Token} {rest left : List Token} {op : UnaryOp}
    (ht : t.unaryOp? = some op) :
    ReadsBinary ctx room 0 (t :: rest) e left ↔
      ∃ operand, e = .unary op t.line operand ∧ ReadsBinary ctx room 0 rest operand left := by
  unfold ReadsBinary
  simp only [readBinary]
  rw [readUnary]
  constructor
  · rintro ⟨h, heq⟩
    split at heq
    · rename_i op' hop
      obtain rfl : op = op' := by simpa using ht.symm.trans hop
      split at heq
      · cases heq
      · rename_i operand rest' h₁ heq₁
        cases heq
        exact ⟨operand, rfl, h₁, heq₁⟩
    · simp_all
  · rintro ⟨operand, rfl, h₁, heq₁⟩
    refine ⟨by simp only [List.length_cons]; omega, ?_⟩
    split
    · rename_i op' hop
      obtain rfl : op = op' := by simpa using ht.symm.trans hop
      simp only [heq₁]
    · simp_all

theorem readsBinary_primary {e : Expression} {t : Token} {rest left : List Token}
    (ht : t.unaryOp? = none) :
    ReadsBinary ctx room 0 (t :: rest) e left ↔ ReadsPrimary ctx room t rest e left := by
  unfold ReadsBinary ReadsPrimary
  simp only [readBinary]
  rw [readUnary]
  split
  · simp_all
  · rfl

/-! ## Operands -/

theorem readsPrimary_literal {t : Token} {rest left : List Token} {e literal : Expression}
    (ht : t.literal? = some literal) :
    ReadsPrimary ctx room t rest e left ↔ e = literal ∧ left = rest := by
  unfold ReadsPrimary
  rw [readPrimary.eq_def]
  unfold Token.literal? at ht
  constructor
  · rintro ⟨h, heq⟩
    repeat' split at ht
    all_goals simp_all
  · rintro ⟨rfl, rfl⟩
    refine ⟨by simp, ?_⟩
    repeat' split at ht
    all_goals simp_all

theorem Token.literal?_eq_none {t : Token} :
    t.literal? = none ↔ t.kind ≠ .numberLiteral ∧ t.kind ≠ .stringLiteral ∧ t.word ≠ "null" ∧
      t.word ≠ "true" ∧ t.word ≠ "false" := by
  unfold Token.literal?
  split <;> simp_all
  split <;> simp_all
  split <;> simp_all
  split <;> simp_all

theorem Token.word_of_text {t : Token} {s : String} (ht : t.text = s) : t.word = lower s := by
  rw [Token.word, ht]

/-- An opening parenthesis takes one bracket and reads up to the closing one. -/
theorem readsPrimary_group {t : Token} {rest left : List Token} {e : Expression}
    (hliteral : t.literal? = none) (ht : t.text = "(") :
    ReadsPrimary ctx room t rest e left ↔
      ∃ room' inner c, room = room' + 1 ∧ e = .group inner ∧ c.text = ")" ∧
        ReadsBinary ctx room' 9 rest inner (c :: left) := by
  obtain ⟨hnumber, hstring, hnull, htrue, hfalse⟩ := Token.literal?_eq_none.mp hliteral
  unfold ReadsPrimary ReadsBinary
  rw [readPrimary.eq_def]
  rw [if_neg hnumber, if_neg hstring, if_neg hnull, if_neg htrue, if_neg hfalse, if_pos ht]
  cases room with
  | zero => simp
  | succ room =>
    dsimp only
    constructor
    · rintro ⟨h, heq⟩
      split at heq
      · cases heq
      · cases heq
      · rename_i inner c rest' h₁ heq₁
        split at heq
        · rename_i hc
          cases heq
          exact ⟨room, inner, c, rfl, rfl, hc, h₁, heq₁⟩
        · cases heq
    · rintro ⟨room', inner, c, hroom, rfl, hc, h₁, heq₁⟩
      cases hroom
      refine ⟨by simp only [List.length_cons] at h₁; omega, ?_⟩
      simp only [heq₁, hc, if_true]

/-- An opening bracket takes one bracket and reads the elements of an array. -/
theorem readsPrimary_list {t : Token} {rest left : List Token} {e : Expression}
    (hliteral : t.literal? = none) (ht : t.text = "[") :
    ReadsPrimary ctx room t rest e left ↔
      ∃ room' elements, room = room' + 1 ∧ e = .array elements ∧
        ReadsElements ctx room' "]" rest elements left := by
  obtain ⟨hnumber, hstring, hnull, htrue, hfalse⟩ := Token.literal?_eq_none.mp hliteral
  have hparen : t.text ≠ "(" := fun h => absurd (ht.symm.trans h) (by decide)
  unfold ReadsPrimary ReadsElements
  rw [readPrimary.eq_def]
  rw [if_neg hnumber, if_neg hstring, if_neg hnull, if_neg htrue, if_neg hfalse, if_neg hparen,
    if_pos ht]
  cases room with
  | zero => simp
  | succ room =>
    dsimp only
    constructor
    · rintro ⟨h, heq⟩
      split at heq
      · cases heq
      · rename_i elements rest' h₁ heq₁
        cases heq
        exact ⟨room, elements, rfl, rfl, h₁, heq₁⟩
    · rintro ⟨room', elements, hroom, rfl, h₁, heq₁⟩
      cases hroom
      refine ⟨by omega, ?_⟩
      simp only [heq₁]

/-- The word `array` before a parenthesis takes one bracket and reads the elements of an array. -/
theorem readsPrimary_array {t o : Token} {rest left : List Token} {e : Expression}
    (hliteral : t.literal? = none) (ht : t.word = "array") (ho : o.word = "(") :
    ReadsPrimary ctx room t (o :: rest) e left ↔
      ∃ room' elements, room = room' + 1 ∧ e = .array elements ∧
        ReadsElements ctx room' ")" rest elements left := by
  obtain ⟨hnumber, hstring, hnull, htrue, hfalse⟩ := Token.literal?_eq_none.mp hliteral
  have hparen : t.text ≠ "(" := fun h => by
    rw [Token.word_of_text h] at ht
    exact absurd ht (by decide)
  have hbracket : t.text ≠ "[" := fun h => by
    rw [Token.word_of_text h] at ht
    exact absurd ht (by decide)
  have harray : t.word = "array" ∧ startsWith (o :: rest) "(" = true := ⟨ht, by simp [startsWith, ho]⟩
  unfold ReadsPrimary ReadsElements
  rw [readPrimary.eq_def]
  rw [if_neg hnumber, if_neg hstring, if_neg hnull, if_neg htrue, if_neg hfalse, if_neg hparen,
    if_neg hbracket, if_pos harray]
  cases room with
  | zero => simp
  | succ room =>
    dsimp only
    constructor
    · rintro ⟨h, heq⟩
      split at heq
      · cases heq
      · rename_i elements rest' h₁ heq₁
        cases heq
        exact ⟨room, elements, rfl, rfl, h₁, heq₁⟩
    · rintro ⟨room', elements, hroom, rfl, h₁, heq₁⟩
      cases hroom
      refine ⟨by simp only [List.length_cons]; omega, ?_⟩
      simp only [heq₁]

/-- A name extends over all its parts, and over a member where it is a word for the enclosing
structure. No parenthesis and no double colon follows it otherwise. -/
theorem readsPrimary_name {t : Token} {rest left : List Token} {e : Expression}
    (ht : t.beginsName rest) :
    ReadsPrimary ctx room t rest e left ↔
      (e = .reference (spelling (t :: rest.takeWhile namesConstant)) t.line ∧
          left = rest.dropWhile namesConstant ∧
          ∀ c ∈ left.head?, c.text ≠ "(" ∧ c.text ≠ "::") ∨
        isSelfWord (lower (spelling (t :: rest.takeWhile namesConstant))) = true ∧
          ∃ c m, rest.dropWhile namesConstant = c :: m :: left ∧ c.text = "::" ∧
            e = .reference
              (lower (spelling (t :: rest.takeWhile namesConstant)) ++ "::" ++ m.text) t.line := by
  obtain ⟨-, hliteral, hparen, hbracket, harray, hname⟩ := ht
  obtain ⟨hnumber, hstring, hnull, htrue, hfalse⟩ := Token.literal?_eq_none.mp hliteral
  unfold ReadsPrimary
  rw [readPrimary.eq_def]
  rw [if_neg hnumber, if_neg hstring, if_neg hnull, if_neg htrue, if_neg hfalse, if_neg hparen,
    if_neg hbracket, if_neg harray, if_pos hname]
  unfold readReference
  rw [spelling_cons, spelling]
  generalize t.text ++ String.join ((rest.takeWhile namesConstant).map Token.text) = name
  dsimp only
  constructor
  · rintro ⟨h, heq⟩
    split at heq
    · rename_i _ hafter _
      cases heq
      exact .inl ⟨rfl, hafter.symm, by simp⟩
    · rename_i c tail _ hafter _
      split at heq
      · rename_i hself
        split at heq
        · cases heq
        · rename_i m _ _ _
          cases heq
          exact .inr ⟨hself.2, c, m, hafter, hself.1, rfl⟩
      · split at heq
        · cases heq
        · rename_i hnot
          cases heq
          exact .inl ⟨rfl, hafter.symm, by simpa [not_or] using hnot⟩
  · rintro (⟨rfl, rfl, hstop⟩ | ⟨hself, c, m, hafter, hc, rfl⟩)
    · refine ⟨Nat.lt_succ_of_le (List.dropWhile_suffix _).length_le, ?_⟩
      split
      · rename_i _ hafter _
        simp [hafter]
      · rename_i c tail _ hafter _
        obtain ⟨hparen', hcolons⟩ := hstop c (by simp [hafter])
        simp [hafter, hparen', hcolons]
    · have hlength : (rest.dropWhile namesConstant).length ≤ rest.length :=
        (List.dropWhile_suffix _).length_le
      rw [hafter] at hlength
      simp only [List.length_cons] at hlength
      refine ⟨by omega, ?_⟩
      split
      · rename_i _ hafter' _
        cases hafter.symm.trans hafter'
      · rename_i c' tail _ hafter' _
        cases hafter.symm.trans hafter'
        simp [hc, hself]

/-- What is neither a literal nor a bracket nor a name is no operand. -/
theorem not_readsPrimary {t : Token} {rest left : List Token} {e : Expression}
    (hunary : t.unaryOp? = none) (hliteral : t.literal? = none) (hparen : t.text ≠ "(")
    (hbracket : t.text ≠ "[") (harray : ¬ (t.word = "array" ∧ startsWith rest "(" = true))
    (ht : ¬ t.beginsName rest) : ¬ ReadsPrimary ctx room t rest e left := by
  obtain ⟨hnumber, hstring, hnull, htrue, hfalse⟩ := Token.literal?_eq_none.mp hliteral
  have hname : ¬ (t.namesConstant = true ∨ isSelfWord t.word = true) := fun h =>
    ht ⟨hunary, hliteral, hparen, hbracket, harray, h⟩
  unfold ReadsPrimary
  rw [readPrimary.eq_def]
  rw [if_neg hnumber, if_neg hstring, if_neg hnull, if_neg htrue, if_neg hfalse, if_neg hparen,
    if_neg hbracket, if_neg harray, if_neg hname]
  rintro ⟨h, heq⟩
  cases heq

/-! ## Elements -/

theorem readsElements_closing {t : Token} {rest left : List Token} {els : List ArrayElement}
    (ht : t.word = closing) :
    ReadsElements ctx room closing (t :: rest) els left ↔ els = [] ∧ left = rest := by
  unfold ReadsElements
  rw [readElements.eq_def]
  simp only [ht, if_true]
  constructor
  · rintro ⟨h, heq⟩
    cases heq
    exact ⟨rfl, rfl⟩
  · rintro ⟨rfl, rfl⟩
    exact ⟨by simp, rfl⟩

/-- The reader of one element, with or without a key, succeeds. -/
def ReadsElement (ctx : ReadContext) (room : Nat) (ts : List Token) (left : List Token) :
    ArrayElement → Prop
  | .positional value => ReadsBinary ctx room 9 ts value left ∧ startsWith left "=>" = false
  | .keyed key value =>
    ∃ arrow rest, ReadsBinary ctx room 9 ts key (arrow :: rest) ∧ arrow.word = "=>" ∧
      ReadsBinary ctx room 9 rest value left

theorem readsElements_cons {ts left : List Token} {els : List ArrayElement}
    (hts : startsWith ts closing = false) :
    ReadsElements ctx room closing ts els left ↔
      ∃ el rest els', els = el :: els' ∧ ReadsElement ctx room ts rest el ∧
        ReadsSeparator ctx room closing rest els' left := by
  cases ts with
  | nil =>
    constructor
    · rintro ⟨h, -⟩
      exact absurd h (Nat.not_lt_zero _)
    · rintro ⟨el, rest, els', -, hel, -⟩
      cases el with
      | positional value => exact absurd hel.1 not_readsBinary_nil
      | keyed key value =>
        obtain ⟨arrow, rest', hkey, -⟩ := hel
        exact absurd hkey not_readsBinary_nil
  | cons t ts =>
    have ht : ¬ t.word = closing := by simpa [startsWith] using hts
    unfold ReadsElements ReadsSeparator
    rw [readElements.eq_def]
    simp only [if_neg ht]
    constructor
    · rintro ⟨h, heq⟩
      split at heq
      · cases heq
      · rename_i first rest h₁ heq₁
        split at heq
        · rename_i harrow
          split at heq
          · cases heq
          · rename_i value rest' h₂ heq₂
            split at heq
            · cases heq
            · rename_i els' rest'' h₃ heq₃
              cases heq
              refine ⟨.keyed first value, rest', els', rfl, ?_, h₃, heq₃⟩
              cases rest with
              | nil => simp [startsWith] at harrow
              | cons arrow rest =>
                exact ⟨arrow, rest, ⟨h₁, heq₁⟩, by simpa [startsWith] using harrow, h₂, heq₂⟩
        · rename_i harrow
          split at heq
          · cases heq
          · rename_i els' rest' h₂ heq₂
            cases heq
            exact ⟨.positional first, rest, els', rfl, ⟨⟨h₁, heq₁⟩, by simpa using harrow⟩, h₂, heq₂⟩
    · rintro ⟨el, rest, els', rfl, hel, h₂, heq₂⟩
      cases el with
      | positional value =>
        obtain ⟨⟨h₁, heq₁⟩, harrow⟩ := hel
        refine ⟨by simp only [List.length_cons] at h₁ ⊢; omega, ?_⟩
        simp only [heq₁, harrow, Bool.false_eq_true, if_false, heq₂]
      | keyed key value =>
        obtain ⟨arrow, rest', ⟨h₁, heq₁⟩, harrow, h₃, heq₃⟩ := hel
        have hstarts : startsWith (arrow :: rest') "=>" = true := by simp [startsWith, harrow]
        refine ⟨by simp only [List.length_cons] at h₁ ⊢; omega, ?_⟩
        simp only [heq₁, hstarts, if_true, List.tail_cons, heq₃, heq₂]

/-- After an element stands a comma with further elements, or the closing bracket. -/
theorem readsSeparator_iff {ts left : List Token} {els : List ArrayElement} :
    ReadsSeparator ctx room closing ts els left ↔
      ∃ t rest, ts = t :: rest ∧
        (t.word = "," ∧ ReadsElements ctx room closing rest els left ∨
          t.word ≠ "," ∧ t.word = closing ∧ els = [] ∧ left = rest) := by
  unfold ReadsSeparator ReadsElements
  cases ts with
  | nil =>
    constructor
    · rintro ⟨h, -⟩
      exact absurd h (Nat.not_lt_zero _)
    · rintro ⟨t, rest, hts, -⟩
      cases hts
  | cons t rest =>
    rw [readSeparator.eq_def]
    dsimp only
    constructor
    · rintro ⟨h, heq⟩
      refine ⟨t, rest, rfl, ?_⟩
      split at heq
      · rename_i hcomma
        split at heq
        · cases heq
        · rename_i els' rest' h₁ heq₁
          cases heq
          exact .inl ⟨hcomma, h₁, heq₁⟩
      · rename_i hcomma
        split at heq
        · rename_i hclosing
          cases heq
          exact .inr ⟨hcomma, hclosing, rfl, rfl⟩
        · cases heq
    · rintro ⟨t', rest', hts, ⟨hcomma, h₁, heq₁⟩ | ⟨hcomma, hclosing, rfl, rfl⟩⟩
      · cases hts
        refine ⟨by simp only [List.length_cons]; omega, ?_⟩
        simp only [hcomma, if_true, heq₁]
      · cases hts
        refine ⟨by simp, ?_⟩
        rw [if_neg hcomma, if_pos hclosing]

end Reflection
