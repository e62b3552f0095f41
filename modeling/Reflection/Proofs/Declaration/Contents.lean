import Reflection.Proofs.Constant.Unplaced
import Reflection.Proofs.Declaration.Redefinition

/-!
# What declarations say

A declaration says what its kind and name are, how it is documented, and what the name stands for.
Nothing of this depends on where its tokens stand. Streams whose declarations say the same give indexes
with the same names and definitions.

## Main definitions

* `Content`, `Listing.content`: what a declaration says.
* `DeclarationIndex.held`: the definitions of an index under some of its names.

## Main statements

* `outcome_define_content`: declarations that say the same are defined alike.
* `fileAll_agree`: filing declarations that say the same.
* `fileAll_agree_extra`: more declarations change what other names stand for in nothing.
-/
namespace Reflection

open Token

/-! ## Contents -/

/-- The meaning without the places of its tokens. -/
def Meaning.unplaced : Meaning → Meaning
  | .constant space d => .constant space d.unplaced
  | meaning => meaning

/-- What a declaration says: its kind, name and documentation, and the meaning of the name. -/
structure Content where
  kind : DeclarationKind
  name : String
  docComment : String
  meaning : Meaning

/-- What a declaration says, wherever its tokens stand. -/
def Listing.content (l : Listing) : Content :=
  ⟨l.declaration.kind, l.declaration.name, l.declaration.docComment, l.meaning.unplaced⟩

/-! ## Definitions -/

/-- Evaluations that come to the same give the same value, or both none. -/
theorem SameValue.valueOrKept_eq {x y : Except EvaluationFault Value} (h : SameValue x y) :
    valueOrKept y = valueOrKept x := by
  cases x with
  | ok v =>
    cases y with
    | ok w =>
      cases h
      rfl
    | error fault => cases h
  | error fault =>
    cases y with
    | ok v => cases h
    | error fault' =>
      have hfault : fault'.unplaced = fault.unplaced := Except.error.inj h
      cases fault <;> cases fault' <;> cases hfault <;> rfl

/-- Expressions with the same tokens are evaluated alike. -/
theorem valueOrKept_evaluate (lookup : ConstantLookup) (room : Nat) {ts ts' : List Token}
    (h : ts'.map unplaced = ts.map unplaced) :
    valueOrKept (evaluate lookup room ts') = valueOrKept (evaluate lookup room ts) := by
  rw [← (evaluate_unplaced lookup room ts').valueOrKept_eq, h,
    (evaluate_unplaced lookup room ts).valueOrKept_eq]

variable {options : ScanOptions} {index index' : DeclarationIndex}

/-- The same constant is declared wherever its tokens stand. -/
theorem outcome_constantOf_unplaced (lookup : ConstantLookup) (docComment : String)
    {d d' : Declarator} (h : d'.unplaced = d.unplaced) :
    (constantOf options lookup docComment d').outcome =
      (constantOf options lookup docComment d).outcome := by
  have hname : d'.name.text = d.name.text := text_of_unplaced (congrArg Declarator.name h)
  have htokens : d'.expression.map unplaced = d.expression.map unplaced :=
    congrArg Declarator.expression h
  have hspelling : spelling d'.expression = spelling d.expression := by
    rw [← spelling_unplaced, htokens, spelling_unplaced]
  cases heval : options.evaluates with
  | true =>
    rw [outcome_constantOf heval, outcome_constantOf heval,
      valueOrKept_evaluate lookup options.room htokens, hname, hspelling]
  | false =>
    simp only [constantOf, constantValue, heval, Bool.false_eq_true, if_false, pure_bind,
      Report.outcome_pure, hname, hspelling]

/-- Declarations that say the same are defined alike where the same constants are known. -/
theorem outcome_define_content (options : ScanOptions) {l l' : Listing} (h : l'.content = l.content)
    (hconstants : index'.constant? = index.constant?) :
    (l'.define options index').outcome = (l.define options index).outcome := by
  obtain ⟨⟨kind, name, scope, token, docComment⟩, meaning⟩ := l
  obtain ⟨⟨kind', name', scope', token', docComment'⟩, meaning'⟩ := l'
  obtain ⟨rfl, rfl, rfl, hmeaning⟩ : kind' = kind ∧ name' = name ∧ docComment' = docComment ∧
      meaning'.unplaced = meaning.unplaced := by
    simpa [Listing.content] using h
  have hknown (space : String) : constantsIn space index' = constantsIn space index := by
    funext name
    rw [constantsIn, constantsIn, hconstants]
  cases meaning with
  | text s =>
    cases meaning' <;> cases hmeaning
    rfl
  | constant space d =>
    cases meaning' with
    | text s => cases hmeaning
    | symbol => cases hmeaning
    | constant space' d' =>
      obtain ⟨rfl, hd⟩ := Meaning.constant.inj hmeaning
      simp only [Listing.define, Report.outcome_bind, Report.outcome_pure, hknown,
        outcome_constantOf_unplaced _ docComment' hd]
  | symbol =>
    cases meaning' <;> cases hmeaning
    rfl

/-! ## What an index holds -/

namespace Table

variable {κ α : Type} [DecidableEq κ]

/-- The entries whose keys are selected. -/
def select (P : κ → Bool) (t : Table κ α) : Table κ α := t.filter fun e => P e.1

variable {P : κ → Bool} {key : κ}

theorem find?_select (h : P key = true) (t : Table κ α) : find? (select P t) key = find? t key := by
  induction t with
  | nil => rfl
  | cons e rest ih =>
    by_cases hkey : e.1 = key
    · have hselected : P e.1 = true := hkey ▸ h
      rw [select, List.filter_cons, if_pos hselected, find?, find?, if_pos hkey, if_pos hkey]
    · rw [select, List.filter_cons]
      split
      · rw [find?, find?, if_neg hkey, if_neg hkey]
        exact ih
      · rw [find?, if_neg hkey]
        exact ih

/-- Writing under a key that is selected, or under another one. -/
theorem select_insert (t : Table κ α) (key : κ) (value : α) :
    select P (insert t key value) =
      if P key = true then insert (select P t) key value else select P t := by
  induction t with
  | nil => simp [select, insert, List.filter_cons]
  | cons e rest ih =>
    unfold select at ih ⊢
    rw [insert]
    by_cases hkey : e.1 = key
    · subst hkey
      by_cases hselected : P e.1 = true
      · simp [insert, hselected]
      · simp [hselected]
    · rw [if_neg hkey, List.filter_cons, List.filter_cons]
      by_cases hother : P e.1 = true
      · simp only [hother, if_true, ih]
        split <;> simp [insert, hkey]
      · simp only [hother, Bool.false_eq_true, if_false, ih]

end Table

namespace DeclarationIndex

/-- What names stand for, under the names that are selected. -/
def held (P : DeclarationKind × String → Bool) (index : DeclarationIndex) :
    Table (DeclarationKind × String) Definition :=
  Table.select P (Table.mapValues (fun _ entry => entry.1) index.entries)

variable {P : DeclarationKind × String → Bool} {kind : DeclarationKind} {name : String}

theorem find?_held (h : P (kind, name) = true) (index : DeclarationIndex) :
    Table.find? (index.held P) (kind, name) = index.value? kind name := by
  rw [held, Table.find?_select h, Table.find?_mapValues]
  rfl

theorem value?_of_held (hheld : index'.held P = index.held P) (h : P (kind, name) = true) :
    index'.value? kind name = index.value? kind name := by
  rw [← find?_held h, hheld, find?_held h]

theorem constant?_of_held (hheld : index'.held P = index.held P)
    (hconst : ∀ name, P (.constKind, name) = true) : index'.constant? = index.constant? := by
  funext name
  rw [constant?, constant?, value?_of_held hheld (hconst name)]

/-- What is declared under a kind, as far as it is selected. -/
theorem elements_filter (index : DeclarationIndex) (kind : DeclarationKind) :
    (index.elements kind).filter (fun e => P (kind, e.1)) =
      (index.held P).filterMap fun e => if e.1.1 = kind then some (e.1.2, e.2) else none := by
  obtain ⟨entries⟩ := index
  simp only [elements, ofKind, held, Table.select, Table.mapValues]
  induction entries with
  | nil => rfl
  | cons e rest ih =>
    obtain ⟨⟨kind', name⟩, definition, d⟩ := e
    by_cases hkind : kind' = kind
    · subst hkind
      by_cases hselected : P (kind', name) = true
      · simpa [hselected] using ih
      · simpa [hselected] using ih
    · by_cases hselected : P (kind', name) = true
      · simpa [hkind, hselected] using ih
      · simpa [hkind, hselected] using ih

/-- Indexes that hold the same under every name of a kind have the same elements of the kind. -/
theorem elements_of_held (hheld : index'.held P = index.held P) (hall : ∀ name, P (kind, name) = true) :
    index'.elements kind = index.elements kind := by
  have hkeep (index : DeclarationIndex) :
      (index.elements kind).filter (fun e => P (kind, e.1)) = index.elements kind :=
    List.filter_eq_self.mpr fun e _ => hall e.1
  rw [← hkeep index', elements_filter, hheld, ← elements_filter, hkeep]

theorem contains_eq_isSome_value? (index : DeclarationIndex) (kind : DeclarationKind) (name : String) :
    index.contains kind name = (index.value? kind name).isSome := by
  rw [contains, value?, Option.isSome_map]

theorem held_add (index : DeclarationIndex) (d : Declaration) (definition : Definition) :
    (index.add d definition).1.held P =
      if index.contains d.kind d.name && d.kind == .namespaceKind then index.held P
      else if P (d.kind, d.name) = true then
        Table.insert (index.held P) (d.kind, d.name) definition
      else index.held P := by
  rw [add]
  split
  · rfl
  · rw [held, Table.mapValues_insert, Table.select_insert]
    rfl

/-- A declaration under a name that is not selected. -/
theorem held_add_of_not (index : DeclarationIndex) {d : Declaration} (h : P (d.kind, d.name) = false)
    (definition : Definition) : (index.add d definition).1.held P = index.held P := by
  rw [held_add, h]
  simp

/-- Declarations of one name with one definition. -/
theorem held_add_of_held (hheld : index'.held P = index.held P) {d d' : Declaration}
    (hkind : d'.kind = d.kind) (hname : d'.name = d.name) (definition : Definition) :
    (index'.add d' definition).1.held P = (index.add d definition).1.held P := by
  cases hselected : P (d.kind, d.name) with
  | true =>
    have hcontains : index'.contains d.kind d.name = index.contains d.kind d.name := by
      rw [contains_eq_isSome_value?, contains_eq_isSome_value?, value?_of_held hheld hselected]
    rw [held_add, held_add, hkind, hname, hcontains, hheld]
  | false =>
    rw [held_add_of_not index hselected, held_add_of_not index' (by rwa [hkind, hname]), hheld]

end DeclarationIndex

/-! ## Filing -/

variable {P : DeclarationKind × String → Bool}

/-- Two indexes that hold the same. -/
def SameHeld (P : DeclarationKind × String → Bool) (index index' : DeclarationIndex) : Prop :=
  index'.held P = index.held P

/-- Filing declarations that say the same: both fail alike, or the indexes hold the same. -/
theorem fileAll_agree (hconst : ∀ name, P (.constKind, name) = true) {listings listings' : List Listing}
    (hcontents : listings'.map Listing.content = listings.map Listing.content)
    (hindex : SameHeld P index index') :
    Agree id (SameHeld P) (fileAll options index listings).outcome
      (fileAll options index' listings').outcome := by
  induction listings generalizing listings' index index' with
  | nil =>
    rw [List.map_nil, List.map_eq_nil_iff] at hcontents
    subst hcontents
    exact hindex
  | cons l rest ih =>
    obtain ⟨l', rest', rfl, hl, hrest⟩ := List.map_eq_cons_iff.mp hcontents
    have hdefine := outcome_define_content options hl
      (DeclarationIndex.constant?_of_held hindex hconst)
    rw [fileAll_cons, fileAll_cons, Report.outcome_bind, Report.outcome_bind, Report.outcome_bind,
      Report.outcome_bind, hdefine]
    cases (l.define options index).outcome with
    | error fault => rfl
    | ok definition =>
      have hkind : l'.declaration.kind = l.declaration.kind := congrArg Content.kind hl
      have hname : l'.declaration.name = l.declaration.name := congrArg Content.name hl
      exact ih hrest (DeclarationIndex.held_add_of_held hindex hkind hname definition)

/-- Declarations under names that are not selected change nothing that is. -/
theorem fileAll_extra {extra : List Listing}
    (hextra : ∀ l ∈ extra, P (l.declaration.kind, l.declaration.name) = false ∧
      ∀ index, ∃ v, (l.define options index).outcome = .ok v) (index : DeclarationIndex) :
    ∃ last, (fileAll options index extra).outcome = .ok last ∧ last.held P = index.held P := by
  induction extra generalizing index with
  | nil => exact ⟨index, rfl, rfl⟩
  | cons l rest ih =>
    obtain ⟨⟨hselected, hdefine⟩, hrest⟩ := List.forall_mem_cons.mp hextra
    obtain ⟨definition, hdefinition⟩ := hdefine index
    obtain ⟨last, hfiled, hheld⟩ := ih hrest (index.add l.declaration definition).1
    refine ⟨last, (fileAll_cons_eq_ok_iff options).mpr ⟨definition, hdefinition, hfiled⟩, ?_⟩
    rw [hheld, DeclarationIndex.held_add_of_not index hselected]

/-- Filing more declarations between the others. -/
theorem fileAll_agree_extra (options : ScanOptions) (hconst : ∀ name, P (.constKind, name) = true)
    {before before' extra after after' : List Listing}
    (hbefore : before'.map Listing.content = before.map Listing.content)
    (hafter : after'.map Listing.content = after.map Listing.content)
    (hextra : ∀ l ∈ extra, P (l.declaration.kind, l.declaration.name) = false ∧
      ∀ index, ∃ v, (l.define options index).outcome = .ok v)
    (hindex : SameHeld P index index') :
    Agree id (SameHeld P) (fileAll options index (before ++ after)).outcome
      (fileAll options index' (before' ++ (extra ++ after'))).outcome := by
  rw [fileAll_append, fileAll_append, Report.outcome_bind, Report.outcome_bind]
  refine (fileAll_agree hconst hbefore hindex).bind fun middle middle' hmiddle => ?_
  obtain ⟨filed, hfiled, hheld⟩ := fileAll_extra hextra middle'
  rw [fileAll_append, Report.outcome_bind, hfiled]
  exact fileAll_agree hconst hafter (hheld.trans hmiddle)

end Reflection
