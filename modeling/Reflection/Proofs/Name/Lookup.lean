import Reflection.Name.Resolution
import Reflection.Proofs.Declaration.Additions
import Reflection.Proofs.Name

/-!
# Looking names up

An index looks a name up under one kind, first as it stands and then, where it has no separator, in the
namespaces of the file. A resolver tries the same names one after the other, each under several kinds. So
both agree on a local name that is no alias, and a name that is declared is resolved to itself.

## Main definitions

* `DeclarationIndex.Strays`: a name is declared only inside namespaces.

## Main statements

* `DeclarationIndex.lookup?_eq_find?`: the names among which a local name is looked up.
* `Name.qualify_relative`: the names among which a relative name is resolved.
* `Name.qualify_iff_lookup`: resolving a name under one kind is looking it up.
-/
namespace Reflection

/-- What is found is the only element that may be. -/
theorem find?_eq_some_of_forall {α : Type} {p : α → Bool} {xs : List α} {a : α} (hmem : a ∈ xs)
    (ha : p a = true) (honly : ∀ x ∈ xs, p x = true → x = a) : xs.find? p = some a := by
  cases hfind : xs.find? p with
  | none => exact absurd ha (List.find?_eq_none.mp hfind a hmem)
  | some x => rw [honly x (List.mem_of_find?_eq_some hfind) (List.find?_some hfind)]

section

variable {index : DeclarationIndex} {kind : DeclarationKind} {name key : String}

/-! ## Lookup under one kind -/

namespace DeclarationIndex

theorem lookup?_of_contains (h : index.contains kind name = true) :
    index.lookup? kind name = some name :=
  if_pos h

/-- A local name is looked for among all that it may stand for. -/
theorem lookup?_eq_find? (hlocal : Name.isQualified name = false) :
    index.lookup? kind name = (Name.candidates index {} name).find? (index.contains kind) := by
  rw [Name.candidates, List.find?_cons, lookup?, hlocal]
  cases index.contains kind name <;> rfl

/-- A local name that is not declared itself, but inside a namespace of the file. -/
structure Strays (index : DeclarationIndex) (kind : DeclarationKind) (name : String) : Prop where
  absent : index.contains kind name = false
  isLocal : Name.isQualified name = false
  inside : ∃ space ∈ index.names .namespaceKind, index.contains kind (Name.join space name) = true

/-- No other declaration of the kinds that names are resolved to has the same local part. -/
def Solitary (index : DeclarationIndex) (kind : DeclarationKind) (name : String) : Prop :=
  ∀ other ∈ DeclarationKind.resolutionOrder, ∀ found ∈ index.names other,
    Name.localPart found = Name.localPart name → other = kind ∧ found = name

/-- A name that strays is found in the first of the namespaces that have it. -/
theorem Strays.lookup?_eq (h : index.Strays kind name) :
    ∃ space, (index.names .namespaceKind).find? (index.contains kind <| Name.join · name) =
        some space ∧
      index.lookup? kind name = some (Name.join space name) := by
  obtain ⟨space, hspace, hcontains⟩ := h.inside
  have hsome : ((index.names .namespaceKind).find?
      (index.contains kind <| Name.join · name)).isSome = true :=
    List.find?_isSome.mpr ⟨space, hspace, hcontains⟩
  obtain ⟨first, hfirst⟩ := Option.isSome_iff_exists.mp hsome
  refine ⟨first, hfirst, ?_⟩
  rw [lookup?, h.absent, h.isLocal, if_neg Bool.false_ne_true, if_neg Bool.false_ne_true,
    List.find?_map]
  exact congrArg (Option.map (Name.join · name)) hfirst

theorem lookup?_eq_none (habsent : index.contains kind name = false)
    (hstrays : ¬ index.Strays kind name) : index.lookup? kind name = none := by
  rw [lookup?, habsent, if_neg Bool.false_ne_true]
  split_ifs with hqualified
  · rfl
  · rw [List.find?_eq_none]
    intro key hkey hcontains
    obtain ⟨space, hspace, rfl⟩ := List.mem_map.mp hkey
    exact hstrays ⟨habsent, by simpa using hqualified, space, hspace, hcontains⟩

end DeclarationIndex

/-! ## Resolution -/

namespace Name

variable {registry : Option SymbolRegistry} {kinds : Option (List DeclarationKind)}

theorem mem_candidates_iff :
    key ∈ candidates index {} name ↔
      key = name ∨ ∃ space ∈ index.names .namespaceKind, key = join space name := by
  rw [candidates, List.mem_cons, List.mem_map]
  simp only [Option.getD_none, eq_comm]

/-- A name is among those that its local part may stand for, where its namespace is one of the
index. -/
theorem join_mem_candidates {space : String}
    (hspace : space = "" ∨ space ∈ index.names .namespaceKind) (localName : String) :
    join space localName ∈ candidates index {} localName := by
  rw [mem_candidates_iff]
  rcases hspace with rfl | hspace
  · exact .inl rfl
  · exact .inr ⟨space, hspace, rfl⟩

theorem mem_resolutionOrder_of_requested (h : kind ∈ requestedKinds kinds) :
    kind ∈ DeclarationKind.resolutionOrder := by
  cases kinds with
  | none => exact h
  | some wanted => exact List.mem_of_mem_filter h

theorem requestedKinds_singleton (h : kind ∈ DeclarationKind.resolutionOrder) :
    requestedKinds (some [kind]) = [kind] := by
  revert h
  cases kind <;> decide

/-- A name with a separator at its start is resolved to what follows it. -/
theorem qualify_separator_append (lookup : LookupOptions) (name : String) :
    qualify index registry ("\\" ++ name) kinds lookup = .ok name := by
  rw [qualify, if_pos (isAbsolute_separator_append name), String.toList_append]
  exact congrArg Except.ok String.ofList_toList

/-- A relative name that is no alias is looked for among all that it may stand for, under any of the
requested kinds. -/
theorem qualify_relative (habsolute : isAbsolute name = false)
    (halias : Table.find? index.imports name = none) :
    qualify index registry name kinds {} =
      match (candidates index {} name).find? fun c =>
        (requestedKinds kinds).any fun k => index.contains k c with
      | some found => .ok found
      | none => .error (.notFound name none) := by
  have hregistry : (registry.filter fun _ => false) = none := by
    cases registry <;> rfl
  cases hfound : (candidates index {} name).find? fun c =>
      (requestedKinds kinds).any fun k => index.contains k c with
  | none => simp [qualify, habsolute, halias, hregistry, hfound]
  | some found => simp [qualify, habsolute, halias, hfound]

/-- A declared name is resolved to itself. -/
theorem qualify_of_contains (hkind : kind ∈ requestedKinds kinds)
    (hcontains : index.contains kind name = true) (habsolute : isAbsolute name = false)
    (halias : Table.find? index.imports name = none) :
    qualify index registry name kinds {} = .ok name := by
  rw [qualify_relative habsolute halias, candidates, List.find?_cons_of_pos]
  exact List.any_eq_true.mpr ⟨kind, hkind, hcontains⟩

/-- All names that a label may stand for have it as their local part. -/
theorem localPart_of_mem_candidates (hlabel : Text.isLabel name = true)
    (h : key ∈ candidates index {} name) : localPart key = name := by
  rcases mem_candidates_iff.mp h with rfl | ⟨space, -, rfl⟩
  · exact localPart_join "" hlabel
  · exact localPart_join space hlabel

/-- Of all that a local name may stand for, only the declaration is found that has it for itself. -/
theorem eq_of_mem_candidates {other : DeclarationKind} {found : String}
    (hsolitary : index.Solitary kind key) (hlabel : Text.isLabel name = true)
    (hkey : key ∈ candidates index {} name) (hother : other ∈ DeclarationKind.resolutionOrder)
    (hfound : found ∈ candidates index {} name) (hcontains : index.contains other found = true) :
    other = kind ∧ found = key := by
  refine hsolitary other hother found ?_ ?_
  · exact (DeclarationIndex.contains_iff_mem_names index other found).mp hcontains
  · rw [localPart_of_mem_candidates hlabel hfound, localPart_of_mem_candidates hlabel hkey]

/-- The local part of a declaration that has it for itself is resolved to its name. -/
theorem qualify_of_solitary (hsolitary : index.Solitary kind key)
    (hkind : kind ∈ requestedKinds kinds) (hcontains : index.contains kind key = true)
    (hlabel : Text.isLabel name = true) (hkey : key ∈ candidates index {} name)
    (halias : Table.find? index.imports name = none) :
    qualify index registry name kinds {} = .ok key := by
  rw [qualify_relative (isAbsolute_of_isLabel hlabel) halias, find?_eq_some_of_forall hkey]
  · exact List.any_eq_true.mpr ⟨kind, hkind, hcontains⟩
  · intro found hfound hdeclared
    obtain ⟨other, hother, hcontains'⟩ := List.any_eq_true.mp hdeclared
    exact (eq_of_mem_candidates hsolitary hlabel hkey (mem_resolutionOrder_of_requested hother)
      hfound hcontains').2

/-- Resolving a local name under one kind is looking it up. -/
theorem qualify_eq_lookup? (hkind : kind ∈ DeclarationKind.resolutionOrder)
    (hlocal : isQualified name = false) (halias : Table.find? index.imports name = none) :
    qualify index registry name (some [kind]) {} =
      match index.lookup? kind name with
      | some found => .ok found
      | none => .error (.notFound name none) := by
  rw [qualify_relative (isAbsolute_of_not_isQualified hlocal) halias, requestedKinds_singleton hkind,
    DeclarationIndex.lookup?_eq_find? hlocal]
  simp only [List.any_cons, List.any_nil, Bool.or_false]

/-- The resolver and the lookup agree on every local name that is no alias, whatever was declared and in
which order: under one kind they give the same name, and there is none for the one just where there is
none for the other. -/
theorem qualify_iff_lookup (index : DeclarationIndex) (registry : Option SymbolRegistry)
    (hkind : kind ∈ DeclarationKind.resolutionOrder) (hlocal : isQualified name = false)
    (halias : Table.find? index.imports name = none) :
    (∀ found, qualify index registry name (some [kind]) {} = .ok found ↔
      index.lookup? kind name = some found) ∧
    (qualify index registry name (some [kind]) {} = .error (.notFound name none) ↔
      index.lookup? kind name = none) := by
  rw [qualify_eq_lookup? hkind hlocal halias]
  cases index.lookup? kind name <;> simp

/-- Two namespaces that have functions of one name, and an import of one of them. -/
def twoSpaces : List Addition :=
  let declare (kind : DeclarationKind) (name : String) (definition : Definition) : Addition :=
    ⟨⟨kind, name, {}, default, ""⟩, definition⟩
  [declare .namespaceKind "B" (.text "B"), declare .namespaceKind "A" (.text "A"),
    declare .functionKind "A\\f" (.text "A\\f"), declare .functionKind "B\\f" (.text "B\\f"),
    declare .useKind "A\\f" (.text "g")]

/-- The function of the namespace that was opened first is found. -/
theorem qualify_iff_lookup_twoSpaces :
    let index := (DeclarationIndex.fill twoSpaces).1
    qualify index none "f" (some [.functionKind]) {} = .ok "B\\f" ∧
      qualify index none "f" (some [.classKind]) {} = .error (.notFound "f" none) := by
  intro index
  have halias : Table.find? index.imports "f" = none := by decide
  have hfunction : DeclarationKind.functionKind ∈ DeclarationKind.resolutionOrder := by decide
  have hclass : DeclarationKind.classKind ∈ DeclarationKind.resolutionOrder := by decide
  exact ⟨((qualify_iff_lookup index none hfunction (by decide) halias).1 _).mpr (by decide),
    (qualify_iff_lookup index none hclass (by decide) halias).2.mpr (by decide)⟩

end Name
end
end Reflection
