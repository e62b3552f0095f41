import Mathlib.Tactic.SplitIfs
import Reflection.Proofs.Program.Reading

/-!
# Reading the statements of a program

The clauses of an import or constant statement are read one after the other, each up to the comma or
the semicolon after it. An import ends before other tokens as well; a constant goes on over them.

## Main definitions

* `Token.EndsImport`: tokens that end an import.
* `Nested`, `DeclaratorPhrase`: values and constants, with any brackets and with any type.

## Main statements

* `Parts.read_last`: a reader that reads one part reads all parts, the last one with what follows it.
* `readUse_afterKeyword`, `readConst_afterKeyword`: the clauses of a statement, whatever follows it.
* `takeExpression_nested`: a value whose brackets match is taken whole.
* `readUse_eq`, `readConst_parts`: the clauses of a statement that a semicolon ends.
-/
namespace Reflection

open Reflection.Text Token

/-- The last part. -/
def Parts.last {α : Type} (p : Parts α) : α := (p.more.getLast?.map Prod.snd).getD p.first

theorem Parts.toList_eq {α : Type} (p : Parts α) : p.toList = p.toList.dropLast ++ [p.last] := by
  have hne : p.toList ≠ [] := List.cons_ne_nil _ _
  have hlast : p.toList.getLast hne = p.last := by
    apply Option.some.inj
    rw [← List.getLast?_eq_some_getLast hne, Parts.toList, List.getLast?_cons, List.getLast?_map,
      Parts.last]
  rw [← hlast, List.dropLast_concat_getLast]

/-- A reader that goes on after a comma reads one part after the other, and the last one with what
follows it. -/
theorem Parts.read_last {α β : Type} {tokensOf : α → List Token} {reader : List Token → Clauses β}
    {value : α → β}
    (hcomma : ∀ part t rest, t.isPunct "," = true →
      reader (skipIgnorable (tokensOf part ++ t :: rest)) =
        (reader (skipIgnorable rest)).cons (value part))
    (p : Parts α) (rest : List Token) :
    reader (skipIgnorable (p.tokens tokensOf ++ rest)) =
      ⟨p.toList.dropLast.map value ++ (reader (skipIgnorable (tokensOf p.last ++ rest))).items,
        (reader (skipIgnorable (tokensOf p.last ++ rest))).fault⟩ := by
  obtain ⟨first, more, hmore⟩ := p
  simp only [Parts.tokens, Parts.toList, Parts.last, List.append_assoc]
  induction more generalizing first with
  | nil => rfl
  | cons part more ih =>
    have hrest := ih part.2 fun other hother => hmore other (List.mem_cons_of_mem part hother)
    have hpunct := hmore part (List.mem_cons_self ..)
    have hlast : ((part :: more).getLast?.map Prod.snd).getD first =
        (more.getLast?.map Prod.snd).getD part.2 := by
      rw [List.getLast?_cons]
      cases more.getLast? <;> rfl
    simp only [List.flatMap_cons, List.cons_append, List.append_assoc, List.map_cons,
      List.dropLast_cons_cons, hlast]
    rw [hcomma first part.1 _ hpunct, hrest]
    rfl

/-- A reader that stops after the last part reads the parts. -/
theorem Parts.read {α β : Type} {tokensOf : α → List Token} {reader : List Token → Clauses β}
    {value : α → β}
    (hcomma : ∀ part t rest, t.isPunct "," = true →
      reader (skipIgnorable (tokensOf part ++ t :: rest)) =
        (reader (skipIgnorable rest)).cons (value part))
    (p : Parts α) {rest : List Token}
    (hlast : reader (skipIgnorable (tokensOf p.last ++ rest)) = ⟨[value p.last], none⟩) :
    reader (skipIgnorable (p.tokens tokensOf ++ rest)) = ⟨p.toList.map value, none⟩ := by
  rw [p.read_last hcomma, hlast, p.toList_eq, List.map_append]
  simp

/-! ## Imports -/

/-- The imports that remain of a statement, by their first one. -/
theorem useClauses_first (line : Int) (rest : List Token) :
    useClauses line rest =
      if Name.relative (spelling (takeNameTokens false rest).1) = "" ∨
          Name.endsOpen (Name.relative (spelling (takeNameTokens false rest).1)) = true then
        ⟨[], none⟩
      else
        match readAlias line (Name.relative (spelling (takeNameTokens false rest).1))
            (takeNameTokens false rest).2 with
        | .error fault => ⟨[], some fault⟩
        | .ok (localName, left) =>
          if left.head?.any (·.isPunct ",") then
            (useClauses line (skipIgnorable left.tail)).cons
              ⟨Name.relative (spelling (takeNameTokens false rest).1), localName⟩
          else ⟨[⟨Name.relative (spelling (takeNameTokens false rest).1), localName⟩], none⟩ := by
  rw [useClauses]
  split_ifs with hname
  · rfl
  · split
    · rename_i fault hfault
      simp only [hfault]
    · rename_i localName left hleft
      simp only [hleft]
      cases left with
      | nil => rfl
      | cons t after => rfl

/-- An import begins with a separator or an identifier. -/
theorem exists_head_import (c : ImportClause) :
    ∃ t rest, c.lead ++ c.name.tokens = t :: rest ∧ (t.kind = .separator ∨ t.kind = .identifier) := by
  cases hlead : c.lead with
  | nil =>
    have hkind := (Bool.and_eq_true_iff.mp c.name.head_isNameStart).1
    exact ⟨c.name.head, _, rfl, .inr (beq_iff_eq.mp hkind)⟩
  | cons t lead =>
    have ht := c.lead_isNameSeparator t (by rw [hlead]; exact List.mem_cons_self ..)
    exact ⟨t, _, rfl, .inl (beq_iff_eq.mp (Bool.and_eq_true_iff.mp ht).1)⟩

theorem skipIgnorable_import (c : ImportClause) (rest : List Token) :
    skipIgnorable (c.before.tokens ++ (c.lead ++ c.name.tokens ++ rest)) =
      c.lead ++ c.name.tokens ++ rest := by
  obtain ⟨t, ts, hhead, hkind⟩ := exists_head_import c
  have hsignificant : t.isIgnorable = false := by
    rcases hkind with hkind | hkind <;> simp [isIgnorable, hkind, TokenKind.isIgnorable]
  rw [skipIgnorable_gap, hhead, List.cons_append, skipIgnorable_cons hsignificant]

/-- The tokens of an import after its name. -/
def ImportClause.afterName (c : ImportClause) : List Token :=
  c.after.tokens ++
    (c.renamed.map fun part => part.1 :: part.2.1.tokens ++ part.2.2.1 :: part.2.2.2.tokens).getD []

theorem ImportClause.tokens_eq (c : ImportClause) :
    c.tokens = c.before.tokens ++ (c.lead ++ c.name.tokens ++ c.afterName) := by
  simp only [tokens, afterName, List.append_assoc]

/-- A token that ends an import: it is no part of a name, no gap, and not the keyword `as`. -/
structure Token.EndsImport (t : Token) : Prop where
  isIgnorable : t.isIgnorable = false
  extendsName : t.extendsName = false
  not_namespace : t.kind ≠ .namespaceKeyword
  not_as : t.kind ≠ .asKeyword

theorem Token.endsImport_of_isPunct {t : Token} {s : String} (h : t.isPunct s = true) : t.EndsImport where
  isIgnorable := isIgnorable_of_isPunct h
  extendsName := by simp [Token.extendsName, isNameStart, kind_of_isPunct h]
  not_namespace := by simp [kind_of_isPunct h]
  not_as := by simp [kind_of_isPunct h]

theorem endsName_afterName (c : ImportClause) {t : Token} (rest : List Token) (ht : t.EndsImport) :
    EndsName (c.afterName ++ t :: rest) := by
  rw [ImportClause.afterName, List.append_assoc]
  refine endsName_gap c.after ?_
  cases hrenamed : c.renamed with
  | none =>
    intro u hu
    cases hu
    exact ⟨ht.extendsName, ht.not_namespace⟩
  | some part =>
    have hkind := (c.renamed_isAlias part hrenamed).1
    intro u hu
    cases hu
    simp [extendsName, isNameStart, hkind]

/-- The alias of an import is read up to the token after the import. -/
theorem readAlias_eq (line : Int) (c : ImportClause) {t : Token} (rest : List Token)
    (ht : t.EndsImport) :
    readAlias line c.name.text (c.afterName ++ t :: rest) =
      .ok (c.clause.localName, t :: rest) := by
  have hskip : skipIgnorable (t :: rest) = t :: rest :=
    skipIgnorable_cons ht.isIgnorable
  rw [ImportClause.afterName, List.append_assoc, ImportClause.clause]
  simp only [readAlias, skipIgnorable_gap]
  cases hrenamed : c.renamed with
  | none =>
    have has : (t.kind == .asKeyword) = false := beq_false_of_ne ht.not_as
    simp only [Option.map_none, Option.getD_none, List.nil_append, hskip, List.head?_cons,
      Option.any_some, has, Bool.false_eq_true, if_false, QualifiedName.localPart_text]
  | some part =>
    obtain ⟨hkind, halias⟩ := c.renamed_isAlias part hrenamed
    have hsignificant : part.1.isIgnorable = false := by
      simp [isIgnorable, hkind, TokenKind.isIgnorable]
    simp only [Option.map_some, Option.getD_some, List.cons_append, List.append_assoc,
      skipIgnorable_cons hsignificant, List.head?_cons, Option.any_some, hkind, beq_self_eq_true,
      if_true, List.tail_cons, skipIgnorable_gap,
      skipIgnorable_cons (isIgnorable_of_isIdentifier halias), halias, hskip]

/-- An import is read up to the token after it; a comma is followed by the next one. -/
theorem useClauses_eq (line : Int) (c : ImportClause) {t : Token} {rest : List Token}
    (ht : t.EndsImport) :
    useClauses line (skipIgnorable (c.tokens ++ t :: rest)) =
      if t.isPunct "," then (useClauses line (skipIgnorable rest)).cons c.clause
      else ⟨[c.clause], none⟩ := by
  have hskip : skipIgnorable (c.tokens ++ t :: rest) =
      c.lead ++ c.name.tokens ++ (c.afterName ++ t :: rest) := by
    rw [c.tokens_eq, List.append_assoc, List.append_assoc, skipIgnorable_import]
  have htake := takeNameTokens_name c.lead c.lead_isNameSeparator c.name
    (endsName_afterName c rest ht) false
  have hname : ¬ (c.name.text = "" ∨ Name.endsOpen c.name.text = true) := by
    simp [c.name.text_ne_empty, c.name.endsOpen_text]
  have halias := readAlias_eq line c rest ht
  rw [hskip, useClauses]
  simp only [htake, QualifiedName.relative_lead c.lead_isNameSeparator, if_neg hname]
  split
  · rename_i fault hfault
    simp only [htake, QualifiedName.relative_lead c.lead_isNameSeparator, halias] at hfault
    cases hfault
  · rename_i localName left hleft
    simp only [htake, QualifiedName.relative_lead c.lead_isNameSeparator, halias] at hleft
    cases hleft
    rfl

/-- The tokens of an import statement after its keyword, the semicolon left out. -/
def ImportItem.afterKeyword (u : ImportItem) : List Token :=
  (u.word.map fun part => part.1.tokens ++ [part.2]).getD [] ++ u.clauses.tokens ImportClause.tokens

theorem ImportItem.tokens_eq (u : ImportItem) :
    u.tokens = u.keyword :: (u.afterKeyword ++ [u.semicolon]) := by
  simp [tokens, afterKeyword]

/-- The imports of a statement are those of its clauses, up to any token that ends an import. -/
theorem readUse_afterKeyword (line : Int) (u : ImportItem) {t : Token} (ht : t.EndsImport)
    (hcomma : t.isPunct "," = false) (rest : List Token) :
    readUse line (u.afterKeyword ++ t :: rest) = ⟨u.clauses.toList.map ImportClause.clause, none⟩ := by
  have hword : afterUseKind (u.afterKeyword ++ t :: rest) =
      skipIgnorable (u.clauses.tokens ImportClause.tokens ++ t :: rest) := by
    simp only [ImportItem.afterKeyword, List.append_assoc, afterUseKind]
    cases hword : u.word with
    | none =>
      -- The first import begins with no word for a kind.
      obtain ⟨t, ts, hhead, hkind⟩ := exists_head_import u.clauses.first
      have hno : ¬ (t.kind = .functionKeyword ∨ t.kind = .constKeyword) := by
        rcases hkind with hkind | hkind <;> simp [hkind]
      have hskip (left : List Token) :
          skipIgnorable (u.clauses.tokens ImportClause.tokens ++ left) = t :: (ts ++
            (u.clauses.first.afterName ++ (u.clauses.more.flatMap (fun part =>
              part.1 :: part.2.tokens) ++ left))) := by
        rw [Parts.tokens, ImportClause.tokens_eq]
        simp only [List.append_assoc]
        rw [← List.append_assoc u.clauses.first.lead, skipIgnorable_import, hhead, List.cons_append]
      simp only [Option.map_none, Option.getD_none, List.nil_append, hskip, if_neg hno]
    | some part =>
      have hkind := u.word_kind part hword
      have hsignificant : part.2.isIgnorable = false := by
        rcases hkind with hkind | hkind <;> simp [isIgnorable, hkind, TokenKind.isIgnorable]
      simp only [Option.map_some, Option.getD_some, List.append_assoc, skipIgnorable_gap,
        List.cons_append, List.nil_append, skipIgnorable_cons hsignificant, if_pos hkind]
  rw [readUse, hword]
  refine u.clauses.read (fun part t rest ht => ?_) ?_
  · rw [useClauses_eq line part (endsImport_of_isPunct ht), if_pos ht]
  · rw [useClauses_eq line _ ht, hcomma]
    rfl

/-- The imports of a statement that a semicolon ends. -/
theorem readUse_eq (line : Int) (u : ImportItem) (rest : List Token) :
    readUse line (u.tokens.tail ++ rest) = ⟨u.clauses.toList.map ImportClause.clause, none⟩ := by
  rw [u.tokens_eq, List.tail_cons, List.append_assoc]
  exact readUse_afterKeyword line u (endsImport_of_isPunct u.semicolon_isPunct)
    (by rw [isPunct_of_isPunct u.semicolon_isPunct]; rfl) rest

/-! ## Constants -/

/-- The brackets. -/
def brackets : List String := ["(", ")", "[", "]", "\x7b", "\x7d"]

/-- Tokens in which every bracket has its partner, without a comma or a semicolon outside of brackets if
they are `outermost`. -/
inductive Nested : Bool → List Token → Prop
  | nil (outermost : Bool) : Nested outermost []
  | other {outermost : Bool} {t : Token} {rest : List Token}
      (hbracket : ∀ text ∈ brackets, t.isPunct text = false)
      (hends : outermost = true → t.isPunct "," = false ∧ t.isPunct ";" = false)
      (hrest : Nested outermost rest) : Nested outermost (t :: rest)
  | group {outermost : Bool} {opening closing : Token} {bracket : String} {inner rest : List Token}
      (hopening : opening.kind = .punctuation) (hpair : closingBracket? opening.text = some bracket)
      (hclosing : closing.isPunct bracket = true) (hinner : Nested false inner)
      (hrest : Nested outermost rest) : Nested outermost (opening :: inner ++ closing :: rest)

/-- Tokens without a brace or a semicolon whose round and square brackets match. -/
theorem Bracketed.nested {outermost : Bool} {ts : List Token} (h : Bracketed outermost ts)
    (hplain : ∀ t ∈ ts, t.isPlain = true) : Nested outermost ts := by
  induction h with
  | nil outermost => exact .nil outermost
  | @other outermost t rest hbracket hcomma hrest ih =>
    have ht := hplain t (List.mem_cons_self ..)
    simp only [isPlain, Bool.and_eq_true, Bool.not_eq_true'] at ht
    obtain ⟨⟨⟨-, hopening⟩, hclosing⟩, hsemicolon⟩ := ht
    refine .other ?_ (fun h => ⟨hcomma h, hsemicolon⟩) (ih fun u hu => hplain u (List.mem_cons_of_mem t hu))
    simpa [brackets, hopening, hclosing] using hbracket
  | @group outermost opening closing inner rest hpair hinner hrest ihinner ihrest =>
    have hinner' := ihinner fun t ht => hplain t (by simp [ht])
    have hrest' := ihrest fun t ht => hplain t (by simp [ht])
    rcases hpair with ⟨hopening, hclosing⟩ | ⟨hopening, hclosing⟩
    · exact .group (kind_of_isPunct hopening) (by rw [text_of_isPunct hopening]; rfl) hclosing hinner' hrest'
    · exact .group (kind_of_isPunct hopening) (by rw [text_of_isPunct hopening]; rfl) hclosing hinner' hrest'

/-- The brackets that an expression waits for are closing ones. -/
def AllClosing (closing : List String) : Prop :=
  ∀ bracket ∈ closing, ∃ opening, closingBracket? opening = some bracket

theorem mem_brackets_of_closingBracket? {opening bracket : String}
    (h : closingBracket? opening = some bracket) :
    opening ∈ brackets ∧ bracket ∈ brackets ∧ closingBracket? bracket = none ∧
      opening ≠ "," ∧ opening ≠ ";" := by
  unfold closingBracket? at h
  split at h <;> cases h <;> decide

theorem significant_cons {t : Token} (h : t.isIgnorable = false) (rest : List Token) :
    significant (t :: rest) = t :: significant rest :=
  List.filter_cons_of_pos (by simp [h])

/-- A token that is no bracket leaves the brackets to be closed as they are. -/
theorem bracketsAfter_other {closing : List String} (hclosing : AllClosing closing) {t : Token}
    (hbracket : ∀ text ∈ brackets, t.isPunct text = false) : bracketsAfter closing t = closing := by
  by_cases hkind : t.kind = .punctuation
  · have hself : t.isPunct t.text = true := by simp [isPunct, hkind]
    have hnone : closingBracket? t.text = none := by
      rw [Option.eq_none_iff_forall_ne_some]
      intro bracket hpair
      rw [hbracket _ (mem_brackets_of_closingBracket? hpair).1] at hself
      cases hself
    have hhead : closing.head? ≠ some t.text := by
      intro heq
      obtain ⟨opening, hpair⟩ := hclosing t.text (List.mem_of_head? heq)
      rw [hbracket _ (mem_brackets_of_closingBracket? hpair).2.1] at hself
      cases hself
    simp only [bracketsAfter, hkind, if_true, hnone, if_neg hhead]
  · exact if_neg hkind

/-- A value is taken whole, and what follows it is left to be seen. -/
theorem takeExpression_nested {outermost : Bool} {ts : List Token} (h : Nested outermost ts)
    {closing : List String} (hclosing : AllClosing closing) (hinside : closing = [] → outermost = true)
    (rest : List Token) :
    takeExpression closing (ts ++ rest) =
      (significant ts ++ (takeExpression closing rest).1, (takeExpression closing rest).2) := by
  induction h generalizing closing rest with
  | nil outermost => rfl
  | @other outermost t tail hbracket hends htail ih =>
    have htail := ih hclosing hinside rest
    have hgoes : t.endsExpression closing = false := by
      cases hc : closing with
      | nil => simp [endsExpression, hends (hinside hc)]
      | cons bracket closing => rfl
    simp only [List.cons_append, takeExpression, hgoes, Bool.false_eq_true, if_false,
      bracketsAfter_other hclosing hbracket, htail]
    cases hignorable : t.isIgnorable <;> simp [significant, hignorable]
  | @group outermost opening close bracket inner tail hopening hpair hclose hinner htail ihinner ihtail =>
    obtain ⟨-, -, hbracket, hcomma, hsemicolon⟩ := mem_brackets_of_closingBracket? hpair
    have hgoes : opening.endsExpression closing = false := by
      simp [endsExpression, isPunct, hcomma, hsemicolon]
    have hstays : close.endsExpression (bracket :: closing) = false := rfl
    have hafter : bracketsAfter closing opening = bracket :: closing := by
      simp [bracketsAfter, hopening, hpair]
    have hback : bracketsAfter (bracket :: closing) close = closing := by
      simp [bracketsAfter, kind_of_isPunct hclose, text_of_isPunct hclose, hbracket]
    have hclosing' : AllClosing (bracket :: closing) :=
      List.forall_mem_cons.mpr ⟨⟨_, hpair⟩, hclosing⟩
    have hignorable : opening.isIgnorable = false := by
      simp [isIgnorable, hopening, TokenKind.isIgnorable]
    have hmiddle := ihinner hclosing' (fun h => by cases h) (close :: (tail ++ rest))
    have hlast := ihtail hclosing hinside rest
    have hsignificant : significant (opening :: (inner ++ close :: tail)) =
        opening :: (significant inner ++ close :: significant tail) := by
      rw [significant_cons hignorable, significant, List.filter_append]
      exact congrArg (fun ts => opening :: (significant inner ++ ts))
        (significant_cons (isIgnorable_of_isPunct hclose) tail)
    simp only [List.cons_append, List.append_assoc, takeExpression, hgoes, Bool.false_eq_true,
      if_false, hafter, hmiddle, hstays, hback, hlast, hignorable, isIgnorable_of_isPunct hclose,
      hsignificant]

/-- One constant of a statement: any tokens that do not end its head, such as a type, the name, and the
tokens of its value, whose brackets match. -/
structure DeclaratorPhrase where
  before : List Token
  before_endsHead : ∀ t ∈ before, endsHead t = false
  name : Token
  name_isIdentifier : name.isIdentifier = true
  after : Gap
  equals : Token
  equals_isPunct : equals.isPunct "=" = true
  value : List Token
  value_nested : Nested true value

namespace DeclaratorPhrase

/-- The tokens of a constant. -/
def tokens (c : DeclaratorPhrase) : List Token :=
  c.before ++ c.name :: c.after.tokens ++ c.equals :: c.value

/-- What a constant declares. -/
def declarator (c : DeclaratorPhrase) : Declarator := ⟨c.name, significant c.value⟩

end DeclaratorPhrase

/-- The constant of a program as one of any statement. -/
def ConstantClause.phrase (c : ConstantClause) : DeclaratorPhrase where
  before := c.before
  before_endsHead := fun t ht => (c.before_isPlain t ht).2
  name := c.name
  name_isIdentifier := c.name_isIdentifier
  after := c.after
  equals := c.equals
  equals_isPunct := c.equals_isPunct
  value := c.value
  value_nested := c.value_bracketed.nested c.value_isPlain

theorem endsHead_of_ignorable {t : Token} (h : t.isIgnorable = true) : endsHead t = false := by
  cases hkind : t.kind <;> simp_all [isIgnorable, TokenKind.isIgnorable, endsHead, isPunct]

theorem isIdentifier_of_ignorable {t : Token} (h : t.isIgnorable = true) :
    t.isIdentifier = false := by
  cases hident : t.isIdentifier with
  | false => rfl
  | true =>
    rw [isIgnorable_of_isIdentifier hident] at h
    cases h

/-- White space and comments in the head of a constant are passed over. -/
theorem declaratorHead_ignorable {ts : List Token} (h : ∀ t ∈ ts, t.isIgnorable = true)
    (name : Option Token) (rest : List Token) :
    declaratorHead name (ts ++ rest) = declaratorHead name rest := by
  induction ts with
  | nil => rfl
  | cons t ts ih =>
    have ht := h t (List.mem_cons_self ..)
    simp only [List.cons_append, declaratorHead, endsHead_of_ignorable ht,
      isIdentifier_of_ignorable ht, Bool.false_eq_true, if_false]
    exact ih fun u hu => h u (List.mem_cons_of_mem t hu)

theorem declaratorHead_skipIgnorable (name : Option Token) (ts : List Token) :
    declaratorHead name (skipIgnorable ts) = declaratorHead name ts := by
  have hsplit : ts.takeWhile Token.isIgnorable ++ skipIgnorable ts = ts :=
    List.takeWhile_append_dropWhile
  have hignorable : ∀ t ∈ ts.takeWhile Token.isIgnorable, t.isIgnorable = true := fun t ht =>
    List.all_eq_true.mp List.all_takeWhile t ht
  rw [← declaratorHead_ignorable hignorable, hsplit]

/-- The name of a constant is the last identifier before its equals sign. -/
theorem declaratorHead_eq (c : DeclaratorPhrase) (rest : List Token) :
    declaratorHead none (c.tokens ++ rest) = (some c.name, c.equals :: (c.value ++ rest)) := by
  have hname : ∀ found, declaratorHead found (c.name :: (c.after.tokens ++
      c.equals :: (c.value ++ rest))) = (some c.name, c.equals :: (c.value ++ rest)) := by
    intro found
    have hends : endsHead c.name = false := by
      simp [endsHead, isPunct_of_isIdentifier c.name_isIdentifier]
    have hequals : endsHead c.equals = true := by simp [endsHead, c.equals_isPunct]
    simp only [declaratorHead, hends, c.name_isIdentifier, Bool.false_eq_true, if_false, if_true,
      declaratorHead_ignorable c.after.ignorable, hequals]
  have hbefore : ∀ (ts : List Token) (found : Option Token), (∀ t ∈ ts, endsHead t = false) →
      declaratorHead found (ts ++ c.name :: (c.after.tokens ++ c.equals :: (c.value ++ rest))) =
        (some c.name, c.equals :: (c.value ++ rest)) := by
    intro ts
    induction ts with
    | nil => intro found _; exact hname found
    | cons t ts ih =>
      intro found h
      simp only [List.cons_append, declaratorHead, h t (List.mem_cons_self ..), Bool.false_eq_true,
        if_false]
      exact ih _ fun u hu => h u (List.mem_cons_of_mem t hu)
  rw [DeclaratorPhrase.tokens, List.append_assoc, List.append_assoc, List.cons_append]
  simpa using hbefore c.before none c.before_endsHead

/-- The constants that remain of a statement, by their first one. -/
theorem declarators_first (line lastLine : Int) (rest : List Token) :
    declarators line lastLine rest =
      if rest.isEmpty then ⟨[], none⟩
      else
        match declaratorHead none rest with
        | (none, _) => ⟨[], some (.nameExpected line)⟩
        | (some _, []) => ⟨[], some (.equalsExpected lastLine)⟩
        | (some name, t :: after) =>
          if t.isPunct "=" then
            if (takeExpression [] after).2.head?.any (·.text == ",") then
              (declarators line lastLine (skipIgnorable (takeExpression [] after).2.tail)).cons
                ⟨name, (takeExpression [] after).1⟩
            else ⟨[⟨name, (takeExpression [] after).1⟩], none⟩
          else ⟨[], some (.equalsExpected t.line)⟩ := by
  by_cases hempty : rest.isEmpty = true
  · rw [declarators.eq_def, if_pos hempty, if_pos hempty]
  · rw [if_neg hempty]
    cases hhead : declaratorHead none rest with
    | mk found left =>
      rw [declarators.eq_def, if_neg hempty]
      dsimp only
      split
      · rename_i _ heq _
        cases hhead.symm.trans heq
        rfl
      · rename_i _ heq _
        cases hhead.symm.trans heq
        rfl
      · rename_i name t after _ heq _
        cases hhead.symm.trans heq
        dsimp only
        by_cases hequals : t.isPunct "=" = true
        · rw [if_pos hequals, if_pos hequals]
          split
          · rename_i c left _ hleft _
            simp only [hleft, List.head?_cons, Option.any_some, List.tail_cons, beq_iff_eq]
          · rename_i _ hleft _
            simp only [hleft, List.head?_nil, Option.any_none, Bool.false_eq_true, if_false]
        · rw [if_neg hequals, if_neg hequals]

/-- A constant is read with what follows its value, up to the end of the whole expression. After a comma
the next one is read. -/
theorem declarators_phrase (line lastLine : Int) (c : DeclaratorPhrase) (rest : List Token) :
    declarators line lastLine (skipIgnorable (c.tokens ++ rest)) =
      if (takeExpression [] rest).2.head?.any (·.text == ",") then
        (declarators line lastLine (skipIgnorable (takeExpression [] rest).2.tail)).cons
          ⟨c.name, significant c.value ++ (takeExpression [] rest).1⟩
      else ⟨[⟨c.name, significant c.value ++ (takeExpression [] rest).1⟩], none⟩ := by
  have hhead : declaratorHead none (skipIgnorable (c.tokens ++ rest)) =
      (some c.name, c.equals :: (c.value ++ rest)) := by
    rw [declaratorHead_skipIgnorable, declaratorHead_eq]
  have hvalue := takeExpression_nested c.value_nested (List.forall_mem_nil _ : AllClosing [])
    (fun _ => rfl) rest
  have hne : (skipIgnorable (c.tokens ++ rest)).isEmpty = false := by
    cases hskip : skipIgnorable (c.tokens ++ rest) with
    | nil =>
      rw [hskip] at hhead
      cases hhead
    | cons _ _ => rfl
  rw [declarators_first, hne, hhead]
  simp only [Bool.false_eq_true, if_false, if_pos c.equals_isPunct, hvalue]

/-- A constant is read up to the token that ends its value; a comma is followed by the next one. -/
theorem declarators_ended (line lastLine : Int) (c : DeclaratorPhrase) {t : Token} {rest : List Token}
    (ht : t.endsExpression [] = true) :
    declarators line lastLine (skipIgnorable (c.tokens ++ t :: rest)) =
      if t.text = "," then
        (declarators line lastLine (skipIgnorable rest)).cons c.declarator
      else ⟨[c.declarator], none⟩ := by
  have hstop : takeExpression [] (t :: rest) = ([], t :: rest) := by simp [takeExpression, ht]
  rw [declarators_phrase, hstop, List.append_nil]
  simp [DeclaratorPhrase.declarator]

/-- The constants of a statement that a semicolon ends, whatever the statement is made of. -/
theorem readConst_parts {α : Type} (phrase : α → DeclaratorPhrase) (line lastLine : Int) (p : Parts α)
    {semicolon : Token} (hsemicolon : semicolon.isPunct ";" = true) (rest : List Token) :
    readConst line lastLine (p.tokens (fun part => (phrase part).tokens) ++ semicolon :: rest) =
      ⟨p.toList.map fun part => (phrase part).declarator, none⟩ := by
  have hends {t : Token} {s : String} (ht : t.isPunct s = true) (hs : s = "," ∨ s = ";") :
      t.endsExpression [] = true := by
    rcases hs with rfl | rfl <;> simp [endsExpression, ht]
  have hcomma (part : α) (t : Token) (rest : List Token) (ht : t.isPunct "," = true) :
      declarators line lastLine (skipIgnorable ((phrase part).tokens ++ t :: rest)) =
        (declarators line lastLine (skipIgnorable rest)).cons (phrase part).declarator := by
    rw [declarators_ended line lastLine (phrase part) (hends ht (.inl rfl)), if_pos (text_of_isPunct ht)]
  refine p.read hcomma ?_
  rw [declarators_ended line lastLine _ (hends hsemicolon (.inr rfl)), text_of_isPunct hsemicolon]
  rfl

/-- A constant of a program is read with what follows its value. -/
theorem declarators_value (line lastLine : Int) (c : ConstantClause) (rest : List Token) :
    declarators line lastLine (skipIgnorable (c.tokens ++ rest)) =
      if (takeExpression [] rest).2.head?.any (·.text == ",") then
        (declarators line lastLine (skipIgnorable (takeExpression [] rest).2.tail)).cons
          ⟨c.name, significant c.value ++ (takeExpression [] rest).1⟩
      else ⟨[⟨c.name, significant c.value ++ (takeExpression [] rest).1⟩], none⟩ :=
  declarators_phrase line lastLine c.phrase rest

/-- The constants of a statement, the last one of them with what follows the statement. -/
theorem readConst_afterKeyword (line lastLine : Int) (c : ConstantItem) (rest : List Token) :
    readConst line lastLine (c.clauses.tokens ConstantClause.tokens ++ rest) =
      ⟨c.clauses.toList.dropLast.map ConstantClause.declarator ++
        (declarators line lastLine (skipIgnorable (c.clauses.last.tokens ++ rest))).items,
        (declarators line lastLine (skipIgnorable (c.clauses.last.tokens ++ rest))).fault⟩ :=
  c.clauses.read_last (fun part t rest ht => by
    have hread := @declarators_ended line lastLine part.phrase t rest (by simp [endsExpression, ht])
    rw [if_pos (text_of_isPunct ht)] at hread
    exact hread)
    rest

/-- The constants of a statement that a semicolon ends. -/
theorem readConst_eq (line lastLine : Int) (c : ConstantItem) (rest : List Token) :
    readConst line lastLine (c.tokens.tail ++ rest) =
      ⟨c.clauses.toList.map ConstantClause.declarator, none⟩ := by
  have htail : c.tokens.tail ++ rest =
      c.clauses.tokens ConstantClause.tokens ++ c.semicolon :: rest := by
    simp [ConstantItem.tokens]
  rw [htail]
  exact readConst_parts ConstantClause.phrase line lastLine c.clauses c.semicolon_isPunct rest

end Reflection
