import Reflection.Proofs.Declaration.Redefinition

/-!
# Additions to an index

An index is filled by adding declarations one after the other, each with what its name stands for. What
it has then can be read off the list of additions: its names are those that were added, in the order of
their first appearance, and each of them has the declaration and the meaning of one and the same
addition. Only an addition under a name that is there already is warned about, and one of a namespace is
not.

## Main definitions

* `Addition`, `DeclarationIndex.fill`: additions, and the index that they make.
* `Addition.counted?`, `Addition.repeated`: the addition that a name has, and those with a warning.
* `SplitIndex`: an index with definitions and declarations in tables of their own.

## Main statements

* `DeclarationIndex.ofKind_add`: the entries of a kind after an addition.
* `DeclarationIndex.split_fill`: definitions and declarations may be kept in tables of their own.
* `DeclarationIndex.fill_spec`: an index that is filled, by its additions.
-/
namespace Reflection

/-- A declaration that is added to an index, with what its name stands for. -/
structure Addition where
  declaration : Declaration
  definition : Definition

namespace Addition

/-- The kind and name under which a declaration is added. -/
def key (a : Addition) : DeclarationKind × String := (a.declaration.kind, a.declaration.name)

/-- Of the additions under a kind and name the one that counts, which is the first one of a namespace
and otherwise the last one. -/
def counted? (additions : List Addition) (kind : DeclarationKind) (name : String) :
    Option Addition :=
  if kind = .namespaceKind then additions.find? (·.key == (kind, name))
  else additions.reverse.find? (·.key == (kind, name))

/-- The names that are added under a kind, each where it first appears. -/
def names (additions : List Addition) (kind : DeclarationKind) : List String :=
  ((additions.filter (·.declaration.kind = kind)).map (·.declaration.name)).eraseDups

/-- The additions under a kind and name that were added before, those of namespaces left out. -/
def repeated (additions : List Addition) : List Addition :=
  (additions.zipIdx.filter fun (a, i) =>
    a.declaration.kind ≠ .namespaceKind ∧ a.key ∈ (additions.take i).map key).map Prod.fst

theorem counted?_concat (additions : List Addition) (a : Addition) (kind : DeclarationKind)
    (name : String) :
    counted? (additions ++ [a]) kind name =
      if a.key = (kind, name) then
        if kind = .namespaceKind then (counted? additions kind name).or (some a) else some a
      else counted? additions kind name := by
  have hlast (h : a.key = (kind, name)) : [a].find? (·.key == (kind, name)) = some a :=
    List.find?_cons_of_pos (beq_iff_eq.mpr h)
  have hnone (h : a.key ≠ (kind, name)) : [a].find? (·.key == (kind, name)) = none :=
    List.find?_cons_of_neg (by simpa using h)
  unfold counted?
  split_ifs with hspace hkey hkey
  · rw [List.find?_append, hlast hkey]
  · rw [List.find?_append, hnone hkey, Option.or_none]
  · rw [List.reverse_append, List.reverse_singleton, List.find?_append, hlast hkey, Option.some_or]
  · rw [List.reverse_append, List.reverse_singleton, List.find?_append, hnone hkey, Option.none_or]

theorem names_concat (additions : List Addition) (a : Addition) (kind : DeclarationKind) :
    names (additions ++ [a]) kind =
      if a.declaration.kind = kind ∧ a.declaration.name ∉ names additions kind then
        names additions kind ++ [a.declaration.name]
      else names additions kind := by
  by_cases hkind : a.declaration.kind = kind
  · simp only [names, List.filter_append, List.filter_singleton, hkind, decide_true, cond_true,
      List.map_append, List.map_singleton, Table.eraseDups_concat, List.mem_eraseDups, true_and, ite_not]
  · simp [names, hkind]

theorem mem_names_iff (additions : List Addition) (kind : DeclarationKind) (name : String) :
    name ∈ names additions kind ↔ (kind, name) ∈ additions.map key := by
  simp only [names, List.mem_eraseDups, List.mem_map, List.mem_filter, decide_eq_true_eq, key,
    Prod.mk.injEq, and_assoc]

theorem repeated_concat (additions : List Addition) (a : Addition) :
    repeated (additions ++ [a]) =
      repeated additions ++
        if a.declaration.kind ≠ .namespaceKind ∧ a.key ∈ additions.map key then [a] else [] := by
  have hbefore : (additions.zipIdx.filter fun (b, i) => b.declaration.kind ≠ .namespaceKind ∧
        b.key ∈ ((additions ++ [a]).take i).map key) =
      additions.zipIdx.filter fun (b, i) => b.declaration.kind ≠ .namespaceKind ∧
        b.key ∈ (additions.take i).map key := by
    refine List.filter_congr fun (b, i) hentry => ?_
    have hlt : i < additions.length + 0 := List.snd_lt_of_mem_zipIdx hentry
    dsimp only
    rw [List.take_append_of_le_length (by omega)]
  rw [repeated, List.zipIdx_append, List.filter_append, hbefore, List.map_append, ← repeated]
  refine congrArg (repeated additions ++ ·) ?_
  split_ifs with hrepeated
  · simp [hrepeated]
  · simpa using hrepeated

end Addition

/-! ## Entries by kind -/

namespace DeclarationIndex

variable (index : DeclarationIndex) (d : Declaration) (definition : Definition)
  (kind : DeclarationKind) (name : String)

/-- An entry is found in the table of its kind. -/
theorem find?_ofKind : Table.find? (index.ofKind kind) name = index.find? kind name := by
  obtain ⟨entries⟩ := index
  unfold ofKind find?
  induction entries with
  | nil => rfl
  | cons e rest ih =>
    obtain ⟨⟨kind', name'⟩, entry⟩ := e
    by_cases hkind : kind' = kind
    · by_cases hname : name' = name
      · simp [Table.find?, hkind, hname]
      · simpa [Table.find?, hkind, hname] using ih
    · simpa [Table.find?, hkind] using ih

/-- An entry is written into the table of its kind. -/
theorem ofKind_insert (entry : Definition × Declaration) (kind' : DeclarationKind) :
    ofKind ⟨Table.insert index.entries (kind', name) entry⟩ kind =
      if kind' = kind then Table.insert (index.ofKind kind) name entry else index.ofKind kind := by
  obtain ⟨entries⟩ := index
  unfold ofKind
  induction entries with
  | nil =>
    by_cases hkind : kind' = kind <;> simp [Table.insert, hkind]
  | cons e rest ih =>
    obtain ⟨⟨kind₀, name₀⟩, entry₀⟩ := e
    by_cases hkey : (kind₀, name₀) = (kind', name)
    · obtain ⟨rfl, rfl⟩ := Prod.mk.inj hkey
      by_cases hkind : kind₀ = kind <;> simp [Table.insert, hkind]
    · by_cases hkind : kind₀ = kind
      · subst hkind
        by_cases hkind' : kind' = kind₀
        · have hname : name₀ ≠ name := fun h => hkey (by rw [h, hkind'])
          simpa [Table.insert, hkey, hkind', hname] using ih
        · simpa [Table.insert, hkey, hkind'] using ih
      · simpa [Table.insert, hkey, hkind] using ih

/-- What adding a declaration does, by whether its name is there already. -/
theorem add_eq : index.add d definition =
    if d.kind = .namespaceKind ∧ d.name ∈ index.names d.kind then (index, [])
    else (⟨Table.insert index.entries (d.kind, d.name) (definition, d)⟩,
      if d.name ∈ index.names d.kind then [redeclared d] else []) := by
  simp only [add, ← contains_iff_mem_names, Bool.and_eq_true, beq_iff_eq]
  by_cases hpresent : index.contains d.kind d.name = true <;> simp [hpresent]

/-- Adding a declaration writes it into the table of its kind, unless it is a namespace that is there
already, and leaves those of the other kinds. -/
theorem ofKind_add : (index.add d definition).1.ofKind kind =
    if d.kind = kind ∧ ¬(kind = .namespaceKind ∧ d.name ∈ index.names kind) then
      Table.insert (index.ofKind kind) d.name (definition, d)
    else index.ofKind kind := by
  by_cases hkept : d.kind = .namespaceKind ∧ d.name ∈ index.names d.kind
  · rw [add_eq, if_pos hkept, if_neg]
    rintro ⟨rfl, hnew⟩
    exact hnew hkept
  · rw [add_eq, if_neg hkept, ofKind_insert]
    by_cases hkind : d.kind = kind
    · subst hkind
      rw [if_pos rfl, if_pos ⟨rfl, hkept⟩]
    · rw [if_neg hkind, if_neg fun h => hkind h.1]

/-- Adding a declaration adds its name to those of its kind where it is not there yet. -/
theorem names_add : (index.add d definition).1.names kind =
    if d.kind = kind ∧ d.name ∉ index.names kind then index.names kind ++ [d.name]
    else index.names kind := by
  have hkeys : Table.keys (Table.insert (index.ofKind kind) d.name (definition, d)) =
      if d.name ∈ index.names kind then index.names kind else index.names kind ++ [d.name] :=
    Table.keys_insert _ _ _
  rw [names, ofKind_add]
  by_cases hkind : d.kind = kind
  · by_cases hpresent : d.name ∈ index.names kind
    · rw [if_pos hpresent] at hkeys
      rw [if_neg fun h : _ ∧ d.name ∉ _ => h.2 hpresent]
      split_ifs
      · exact hkeys
      · rfl
    · rw [if_neg hpresent] at hkeys
      rw [if_pos ⟨hkind, fun h => hpresent h.2⟩, if_pos ⟨hkind, hpresent⟩]
      exact hkeys
  · rw [if_neg fun h => hkind h.1, if_neg fun h => hkind h.1, names]

/-- An addition under a name that is there already is warned about, unless it is one of a
namespace. -/
theorem warnings_add : (index.add d definition).2 =
    if d.kind ≠ .namespaceKind ∧ d.name ∈ index.names d.kind then [redeclared d] else [] := by
  rw [add_eq]
  by_cases hspace : d.kind = .namespaceKind
  · by_cases hpresent : d.name ∈ index.names d.kind
    · rw [if_pos ⟨hspace, hpresent⟩, if_neg fun h => h.1 hspace]
    · simp only [hpresent, and_false, if_false]
  · simp [hspace]

end DeclarationIndex

/-! ## Tables of their own -/

/-- An index that keeps, for each kind, what names stand for in one table and their declarations in
another one. -/
structure SplitIndex where
  definitions : DeclarationKind → Table String Definition
  declarations : DeclarationKind → Table String Declaration

namespace SplitIndex

/-- Adds a declaration, with a warning where it replaces one. Both tables of its kind are written, or
none of them. -/
def add (s : SplitIndex) (d : Declaration) (definition : Definition) : SplitIndex × List String :=
  let present := Table.contains (s.definitions d.kind) d.name
  if present && d.kind == .namespaceKind then (s, [])
  else
    let definitions := Table.insert (s.definitions d.kind) d.name definition
    let declarations := Table.insert (s.declarations d.kind) d.name d
    (⟨Function.update s.definitions d.kind definitions,
        Function.update s.declarations d.kind declarations⟩,
      if present then [DeclarationIndex.redeclared d] else [])

/-- The index that additions make, one after the other, with the warnings about them. -/
def fill (additions : List Addition) : SplitIndex × List String :=
  additions.foldl (fun (s, warnings) a =>
    let (s, new) := s.add a.declaration a.definition
    (s, warnings ++ new)) (⟨fun _ => [], fun _ => []⟩, [])

end SplitIndex

namespace DeclarationIndex

/-- The index with definitions and declarations in tables of their own. -/
def split (index : DeclarationIndex) : SplitIndex where
  definitions := index.elements
  declarations kind := (index.ofKind kind).map fun (name, _, d) => (name, d)

variable (index : DeclarationIndex)

/-- What names stand for and their declarations are found in the tables that have them. -/
theorem find?_split (kind : DeclarationKind) (name : String) :
    Table.find? (index.split.definitions kind) name = index.value? kind name ∧
      Table.find? (index.split.declarations kind) name = index.declaration? kind name := by
  rw [value?, declaration?, ← find?_ofKind]
  have hvalues {α : Type} (f : Definition × Declaration → α) :
      Table.find? (Table.mapValues (fun _ => f) (index.ofKind kind)) name =
        (Table.find? (index.ofKind kind) name).map f := Table.find?_mapValues _ _ _
  exact ⟨hvalues Prod.fst, hvalues Prod.snd⟩

/-- What is kept of the entries of each kind changes where an entry is written. -/
theorem mapValues_ofKind_add {α : Type} (f : Definition × Declaration → α) (d : Declaration)
    (definition : Definition) (h : ¬(d.kind = .namespaceKind ∧ d.name ∈ index.names d.kind)) :
    (fun kind => Table.mapValues (fun _ => f) ((index.add d definition).1.ofKind kind)) =
      Function.update (fun kind => Table.mapValues (fun _ => f) (index.ofKind kind)) d.kind
        (Table.insert (Table.mapValues (fun _ => f) (index.ofKind d.kind)) d.name
          (f (definition, d))) := by
  funext kind
  by_cases hkind : kind = d.kind
  · subst hkind
    rw [Function.update_self, ofKind_add, if_pos ⟨rfl, h⟩, Table.mapValues_insert]
  · rw [Function.update_of_ne hkind, ofKind_add, if_neg fun h => hkind h.1.symm]

/-- Adding a declaration to the tables is adding it to the index. -/
theorem split_add (d : Declaration) (definition : Definition) :
    index.split.add d definition =
      ((index.add d definition).1.split, (index.add d definition).2) := by
  have hpresent : Table.contains (index.split.definitions d.kind) d.name =
      decide (d.name ∈ index.names d.kind) := by
    rw [Bool.eq_iff_iff, Table.contains_iff_mem_keys, decide_eq_true_eq]
    simp [split, elements, names, Table.keys]
  have hskip : (decide (d.name ∈ index.names d.kind) && d.kind == .namespaceKind) = true ↔
      d.kind = .namespaceKind ∧ d.name ∈ index.names d.kind := by
    simp [and_comm]
  simp only [SplitIndex.add, hpresent, hskip, decide_eq_true_eq]
  by_cases hkept : d.kind = .namespaceKind ∧ d.name ∈ index.names d.kind
  · rw [if_pos hkept, add_eq, if_pos hkept]
  · have hdefinitions : (index.add d definition).1.split.definitions = _ :=
      index.mapValues_ofKind_add Prod.fst d definition hkept
    have hdeclarations : (index.add d definition).1.split.declarations = _ :=
      index.mapValues_ofKind_add Prod.snd d definition hkept
    have hwarnings : (index.add d definition).2 =
        if d.name ∈ index.names d.kind then [redeclared d] else [] := by rw [add_eq, if_neg hkept]
    rw [if_neg hkept, hwarnings]
    exact congrArg (·, _) (congrArg₂ SplitIndex.mk hdefinitions.symm hdeclarations.symm)

end DeclarationIndex

/-! ## Runs of additions -/

namespace DeclarationIndex

/-- The index that additions make, one after the other, with the warnings about them. -/
def fill (additions : List Addition) : DeclarationIndex × List String :=
  additions.foldl (fun (index, warnings) a =>
    let (index, new) := index.add a.declaration a.definition
    (index, warnings ++ new)) ({}, [])

section

variable (additions : List Addition) (kind : DeclarationKind) (name : String)

theorem fill_concat (a : Addition) :
    fill (additions ++ [a]) =
      (((fill additions).1.add a.declaration a.definition).1,
        (fill additions).2 ++ ((fill additions).1.add a.declaration a.definition).2) := by
  rw [fill, List.foldl_append]
  rfl

theorem names_fill : (fill additions).1.names kind = Addition.names additions kind := by
  induction additions using List.reverseRecOn with
  | nil => rfl
  | append_singleton additions a ih => rw [fill_concat, names_add, Addition.names_concat, ih]

/-- A name has what one addition gave it. -/
theorem find?_fill : (fill additions).1.find? kind name =
    (Addition.counted? additions kind name).map fun a => (a.definition, a.declaration) := by
  induction additions using List.reverseRecOn with
  | nil => simp [fill, find?, Table.find?, Addition.counted?]
  | append_singleton additions a ih =>
    rw [fill_concat, find?_add, Addition.counted?_concat, ih, apply_ite (Option.map _),
      apply_ite (Option.map _), Option.map_or]
    rfl

/-- The entries of a kind are those that the additions of this kind make. -/
theorem ofKind_fill : (fill additions).1.ofKind kind =
    (fill (additions.filter (·.declaration.kind = kind))).1.ofKind kind := by
  induction additions using List.reverseRecOn with
  | nil => rfl
  | append_singleton additions a ih =>
    have hnames : (fill additions).1.names kind =
        (fill (additions.filter (·.declaration.kind = kind))).1.names kind :=
      congrArg (List.map Prod.fst) ih
    rw [List.filter_append, fill_concat, ofKind_add]
    by_cases hkind : a.declaration.kind = kind
    · rw [List.filter_cons_of_pos (by simpa using hkind), List.filter_nil, fill_concat, ofKind_add,
        ih]
      simp only [hnames]
    · rw [List.filter_cons_of_neg (by simpa using hkind), List.filter_nil, List.append_nil,
        if_neg fun h => hkind h.1, ih]

theorem warnings_fill : (fill additions).2 =
    (Addition.repeated additions).map (redeclared ·.declaration) := by
  induction additions using List.reverseRecOn with
  | nil => rfl
  | append_singleton additions a ih =>
    have hpresent : a.declaration.name ∈ (fill additions).1.names a.declaration.kind ↔
        a.key ∈ additions.map Addition.key := by
      rw [names_fill, Addition.mem_names_iff]
      rfl
    rw [fill_concat, warnings_add, Addition.repeated_concat, List.map_append, ← ih]
    simp only [hpresent]
    split_ifs <;> rfl

/-- Definitions and declarations may be kept in tables of their own. -/
theorem split_fill :
    SplitIndex.fill additions = ((fill additions).1.split, (fill additions).2) := by
  induction additions using List.reverseRecOn with
  | nil => rfl
  | append_singleton additions a ih =>
    have hstep : SplitIndex.fill (additions ++ [a]) =
        let new := (SplitIndex.fill additions).1.add a.declaration a.definition
        (new.1, (SplitIndex.fill additions).2 ++ new.2) := by
      rw [SplitIndex.fill, List.foldl_append]
      rfl
    rw [hstep, ih, split_add, fill_concat]

end

/-- However declarations of any kinds are added one after the other, the names of a kind are those that
were added under it, in the order of their first appearance. What a name stands for and its declaration
are those of one addition, the first one under this name for a namespace and otherwise the last one. The
entries of a kind depend on the additions of this kind alone. There is one warning for each addition under
a name that was there before, in order, and none for a namespace. All this holds as well where definitions
and declarations are written into tables of their own. -/
theorem fill_spec (additions : List Addition) :
    let index := (fill additions).1
    (∀ kind, index.names kind = Addition.names additions kind) ∧
    (∀ kind name,
      let counted? := Addition.counted? additions kind name
      index.value? kind name = counted?.map Addition.definition ∧
        index.declaration? kind name = counted?.map Addition.declaration) ∧
    (∀ kind, index.ofKind kind =
      (fill (additions.filter (·.declaration.kind = kind))).1.ofKind kind) ∧
    (fill additions).2 = (Addition.repeated additions).map (redeclared ·.declaration) ∧
    SplitIndex.fill additions = (index.split, (fill additions).2) ∧
    ∀ kind name,
      Table.find? (index.split.definitions kind) name = index.value? kind name ∧
        Table.find? (index.split.declarations kind) name = index.declaration? kind name := by
  refine ⟨names_fill additions, fun kind name => ⟨?_, ?_⟩, ofKind_fill additions,
    warnings_fill additions, split_fill additions, (fill additions).1.find?_split⟩
  · rw [value?, find?_fill, Option.map_map]
    rfl
  · rw [declaration?, find?_fill, Option.map_map]
    rfl

end DeclarationIndex
end Reflection
