import Reflection.Declaration.Scan
import Reflection.Proofs.Report

/-!
# Filing declarations

A scan changes its index only by adding declarations, each stage those of its own kinds. What adding a
declaration keeps is therefore kept by the stages and holds of the index of the whole scan. So every
entry of an index stands under the kind and the name of its declaration.

## Main definitions

* `DeclarationIndex.Keyed`: entries stand under the kinds and names of their declarations.

## Main statements

* `DeclarationIndex.find?_add`: the entries after an addition.
* `scan_keeps`: what every addition keeps, a scan keeps.
* `keyed_scan`: the index of a scan is keyed.
-/
namespace Reflection

variable {options : ScanOptions} {tokens : List Token} {index index' : DeclarationIndex}

/-- Clauses that are added without fault are added one after the other. -/
theorem outcome_addClauses {σ α : Type} {add : σ → α → Report ScanFault σ} {s s' : σ}
    {clauses : Clauses α} (h : (addClauses add s clauses).outcome = .ok s') :
    (clauses.items.foldlM add s).outcome = .ok s' := by
  simp only [addClauses, Report.outcome_bind] at h
  obtain ⟨last, hlast, h⟩ := exists_ok_of_bind h
  rw [hlast]
  split at h
  · cases h
  · exact h

theorem eq_of_file {d : Declaration} {definition : Definition}
    (h : (file index d definition).outcome = .ok index') : (index.add d definition).1 = index' := by
  simpa [file] using h

/-! ## Stages -/

/-- A property of indexes is kept by adding declarations of a kind. -/
def KeptBy (P : DeclarationIndex → Prop) (kind : DeclarationKind) : Prop :=
  ∀ index d definition, d.kind = kind → P index → P (index.add d definition).1

variable {P : DeclarationIndex → Prop}

theorem KeptBy.file {kind : DeclarationKind} {d : Declaration} {definition : Definition}
    (hkept : KeptBy P kind) (hkind : d.kind = kind) (h : P index)
    (hfile : (file index d definition).outcome = .ok index') : P index' := by
  rw [← eq_of_file hfile]
  exact hkept index d definition hkind h

theorem KeptBy.fileNamespaces {closed : List Scope} (hkept : KeptBy P .namespaceKind) (h : P index)
    (hfile : (fileNamespaces tokens closed index).outcome = .ok index') : P index' := by
  refine Report.foldlM_keeps h hfile fun index owned index' h hstep => ?_
  dsimp only at hstep
  split at hstep
  · cases hstep
    exact h
  · exact hkept.file rfl h hstep

theorem KeptBy.fileUse {s : Statement} (hkept : KeptBy P .useKind) (h : P index)
    (hfile : (fileUse tokens index s).outcome = .ok index') : P index' := by
  refine Report.foldlM_keeps h (outcome_addClauses hfile) fun index clause index' h hstep => ?_
  exact hkept.file rfl h hstep

theorem KeptBy.fileConst {namespaces : NamespaceScopes} {s : Statement}
    (hkept : KeptBy P .constKind) (h : P index)
    (hfile : (fileConst options tokens namespaces index s).outcome = .ok index') : P index' := by
  refine Report.foldlM_keeps h (outcome_addClauses hfile) fun index d index' h hstep => ?_
  simp only [Report.outcome_bind] at hstep
  obtain ⟨c, -, hfiled⟩ := exists_ok_of_bind hstep
  exact hkept.file rfl h hfiled

theorem KeptBy.fileStatement {namespaces : NamespaceScopes} {s : Statement}
    (huse : KeptBy P .useKind) (hconst : KeptBy P .constKind) (h : P index)
    (hfile : (fileStatement options tokens namespaces index s).outcome = .ok index') :
    P index' := by
  unfold Reflection.fileStatement at hfile
  split at hfile
  · exact huse.fileUse h hfile
  · exact hconst.fileConst h hfile

theorem KeptBy.fileScoped {closed : List Scope} {namespaces : NamespaceScopes}
    {kind : DeclarationKind} (hkept : KeptBy P kind) (h : P index)
    (hfile : (fileScoped options tokens closed namespaces index kind).outcome = .ok index') :
    P index' := by
  refine Report.foldlM_keeps h hfile fun index owned index' h hstep => ?_
  dsimp only at hstep
  split at hstep
  · cases hstep
    exact h
  · simp only [Report.outcome_bind] at hstep
    obtain ⟨definition, -, hfiled⟩ := exists_ok_of_bind hstep
    exact hkept.file rfl h hfiled

/-- What holds of the empty index and is kept by adding any declaration holds of the index of a scan. -/
theorem scan_keeps (hempty : P {}) (hkept : ∀ kind, KeptBy P kind)
    (h : (scan options tokens).outcome = .ok index) : P index := by
  simp only [scan, Report.outcome_bind] at h
  obtain ⟨-, -, h⟩ := exists_ok_of_bind h
  obtain ⟨afterNamespaces, hnamespaces, h⟩ := exists_ok_of_bind h
  obtain ⟨afterStatements, hstatements, hscoped⟩ := exists_ok_of_bind h
  have hstart : P afterNamespaces := (hkept _).fileNamespaces hempty hnamespaces
  have hfiled : P afterStatements := Report.foldlM_keeps hstart hstatements
    fun index s index' h hstep => (hkept _).fileStatement (hkept _) h hstep
  exact Report.foldlM_keeps hfiled hscoped
    fun index kind index' h hstep => (hkept kind).fileScoped h hstep

/-! ## Keys -/

namespace DeclarationIndex

theorem contains_eq_isSome (index : DeclarationIndex) (kind : DeclarationKind) (name : String) :
    index.contains kind name = (index.declaration? kind name).isSome := by
  rw [contains, declaration?, Option.isSome_map]

/-- Adding a declaration changes no entry but its own, and that of a namespace only where there is
none. -/
theorem find?_add (index : DeclarationIndex) (d : Declaration) (definition : Definition)
    (kind : DeclarationKind) (name : String) :
    (index.add d definition).1.find? kind name =
      if (d.kind, d.name) = (kind, name) then
        if kind = .namespaceKind then (index.find? kind name).or (some (definition, d))
        else some (definition, d)
      else index.find? kind name := by
  by_cases hkey : (d.kind, d.name) = (kind, name)
  · obtain ⟨rfl, rfl⟩ := Prod.mk.inj hkey
    rw [if_pos hkey]
    cases hfound : index.find? d.kind d.name with
    | none =>
      have hcontains : index.contains d.kind d.name = false := by
        rw [contains, hfound, Option.isSome_none]
      simp [add, hcontains, find?]
    | some old =>
      have hcontains : index.contains d.kind d.name = true := by
        rw [contains, hfound, Option.isSome_some]
      by_cases hspace : d.kind = .namespaceKind
      · rw [add, if_pos (by simp [hcontains, ← hspace]), if_pos hspace, hfound]
        rfl
      · simp [add, hcontains, hspace, find?]
  · rw [if_neg hkey, add]
    split
    · rfl
    · simp only [find?, Table.find?_insert, if_neg hkey]

theorem declaration?_add (index : DeclarationIndex) (d : Declaration) (definition : Definition)
    (kind : DeclarationKind) (name : String) :
    (index.add d definition).1.declaration? kind name =
      if (d.kind, d.name) = (kind, name) then
        if kind = .namespaceKind then (index.declaration? kind name).or (some d) else some d
      else index.declaration? kind name := by
  rw [declaration?, declaration?, find?_add, apply_ite (Option.map Prod.snd),
    apply_ite (Option.map Prod.snd), Option.map_or]
  rfl

/-- Every entry stands under the kind and the name of its declaration. -/
def Keyed (index : DeclarationIndex) : Prop :=
  ∀ kind name d, index.declaration? kind name = some d → d.kind = kind ∧ d.name = name

theorem keyed_empty : Keyed {} := by
  intro kind name d h
  cases h

theorem keptBy_keyed (kind : DeclarationKind) : KeptBy Keyed kind := by
  intro index d definition hkind h kind' name d' hfound
  rw [declaration?_add] at hfound
  split at hfound
  · rename_i hkey
    obtain ⟨rfl, rfl⟩ := Prod.mk.inj hkey
    split at hfound
    · rcases Option.or_eq_some_iff.mp hfound with hold | ⟨-, hown⟩
      · exact h _ _ d' hold
      · cases hown
        exact ⟨rfl, rfl⟩
    · cases hfound
      exact ⟨rfl, rfl⟩
  · exact h kind' name d' hfound

end DeclarationIndex

/-- The index of a scan is keyed. -/
theorem keyed_scan (h : (scan options tokens).outcome = .ok index) : index.Keyed :=
  scan_keeps DeclarationIndex.keyed_empty DeclarationIndex.keptBy_keyed h

end Reflection
