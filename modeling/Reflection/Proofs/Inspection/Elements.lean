import Reflection.Proofs.Declaration.Imports
import Reflection.Proofs.Inspection.Modes
import Reflection.Proofs.Name.Lookup

/-!
# Elements by name

A file is asked for an element by a kind and a name: whether there is one, for its declaration, and for
what it stands for. The answers agree on one entry of the index, or on there being none.

A name with a separator at its start is taken without it. The resolver then has the name, but a query
looks up what is left as any local name, so it may also give an element of a namespace.

## Main definitions

* `SourceFile.Gives`, `SourceFile.Lacks`: the answers for a name that has an element or has none.
* `SourceFile.AnswersFor`: the answers for a name are about the element of one key.

## Main statements

* `SourceFile.gives_of_find?`, `SourceFile.lacks_of_find?`: the answers follow the key of a name.
* `SourceFile.absolute_queries`: queries by a name with a separator at its start.
-/
namespace Reflection.SourceFile

variable {f : SourceFile} {index : DeclarationIndex} {kind : DeclarationKind} {name key : String}

/-! ## Answers -/

/-- What a file gives for an entry of its index. The name of a symbol gives way to its handle where the
file is loaded or its symbols are looked up on demand. -/
def element (f : SourceFile) (kind : DeclarationKind) (key : String) :
    Definition → Except SourceFault Definition
  | .text s =>
    if kind ≠ .constKind ∧ (f.flags.isLoaded ∨ f.flags.isAutoloadable) then
      (f.bind kind key).mapError .symbol
    else .ok (.text s)
  | definition => .ok definition

/-- Whatever was asked before, the answers for a name are about one entry of the index. -/
structure Gives (f : SourceFile) (index : DeclarationIndex) (kind : DeclarationKind)
    (name key : String) : Prop where
  has : ∀ past, f.answerAfter past (.ofIndex (.has kind name)) = .ok true
  declaration : ∃ d, index.declaration? kind key = some d ∧
    ∀ past, f.answerAfter past (.ofIndex (.declaration kind name)) = .ok d
  get : ∃ v, index.value? kind key = some v ∧
    ∀ past, f.answerAfter past (.ofIndex (.get kind name)) = f.element kind key v

/-- Whatever was asked before, there is no element of a name. -/
structure Lacks (f : SourceFile) (kind : DeclarationKind) (name : String) : Prop where
  has : ∀ past, f.answerAfter past (.ofIndex (.has kind name)) = .ok false
  declaration : ∀ past, f.answerAfter past (.ofIndex (.declaration kind name)) =
    .error (.symbol (.notFound name (some kind)))
  get : ∀ past, f.answerAfter past (.ofIndex (.get kind name)) =
    .error (.symbol (.notFound name (some kind)))

/-- The answers for a name are about the element of a key, if there is one. -/
def AnswersFor (f : SourceFile) (index : DeclarationIndex) (kind : DeclarationKind)
    (name key : String) : Prop :=
  if index.contains kind key then f.Gives index kind name key else f.Lacks kind name

theorem Gives.not_lacks (h : f.Gives index kind name key) : ¬ f.Lacks kind name := by
  intro hlacks
  have hhas := (h.has []).symm.trans (hlacks.has [])
  cases hhas

/-! ## Answers by keys -/

theorem answerAfter_ofIndex (h : f.buildIndex.outcome = .ok index) (past : List Query)
    (q : IndexQuery) : f.answerAfter past (.ofIndex q) = q.answer f index := by
  rw [answerAfter_eq]
  exact bind_of_eq_ok h _

/-- Where a name has a key, the answers are about the entry of the key. -/
theorem gives_of_find? (h : f.buildIndex.outcome = .ok index)
    (hkey : find? index kind name = some key) (hcontains : index.contains kind key = true) :
    f.Gives index kind name key := by
  have hget : getKey index kind name = .ok key := by rw [getKey, hkey]
  obtain ⟨⟨v, d⟩, hentry⟩ := Option.isSome_iff_exists.mp hcontains
  have hvalue : index.value? kind key = some v := by rw [DeclarationIndex.value?, hentry]; rfl
  have hdeclaration : index.declaration? kind key = some d := by
    rw [DeclarationIndex.declaration?, hentry]; rfl
  refine ⟨fun past => ?_, ⟨d, hdeclaration, fun past => ?_⟩, v, hvalue, fun past => ?_⟩
  · rw [answerAfter_ofIndex h]
    exact congrArg (fun found => Except.ok (Option.isSome found)) hkey
  · rw [answerAfter_ofIndex h]
    show getDeclaration kind name index = .ok d
    rw [getDeclaration, bind_of_eq_ok hget, hdeclaration]
  · rw [answerAfter_ofIndex h]
    show f.get kind name index = f.element kind key v
    rw [SourceFile.get, bind_of_eq_ok hget, hvalue]
    cases v <;> rfl

/-- Where a name has no key, there is no element. -/
theorem lacks_of_find? (h : f.buildIndex.outcome = .ok index)
    (hkey : find? index kind name = none) : f.Lacks kind name := by
  have hget : getKey index kind name = .error (.symbol (.notFound name (some kind))) := by
    rw [getKey, hkey]
  refine ⟨fun past => ?_, fun past => ?_, fun past => ?_⟩
  · rw [answerAfter_ofIndex h]
    exact congrArg (fun found => Except.ok (Option.isSome found)) hkey
  · rw [answerAfter_ofIndex h]
    show getDeclaration kind name index = _
    rw [getDeclaration, hget]
    rfl
  · rw [answerAfter_ofIndex h]
    exact get_of_error hget

/-- The key of a relative name that is no alias is the one that is looked up. -/
theorem find?_of_relative (habsolute : Name.isAbsolute name = false)
    (halias : Table.find? index.imports name = none) :
    find? index kind name = index.lookup? kind name := by
  rw [find?, Name.relative_of_not_isAbsolute habsolute, halias]
  cases index.lookup? kind name <;> rfl

/-! ## Names with a separator at their start -/

/-- A name with a separator at its start is no alias, so it is looked up without its separators. -/
theorem find?_separator_append (h : f.buildIndex.outcome = .ok index) (kind : DeclarationKind)
    (name : String) : find? index kind ("\\" ++ name) = index.lookup? kind (Name.relative name) := by
  obtain ⟨tokens, -, hscan⟩ := exists_scan_of_buildIndex h
  rw [find?, Name.relative_separator_append,
    find?_imports_of_isAbsolute hscan (Name.isAbsolute_separator_append name)]
  cases index.lookup? kind (Name.relative name) <;> rfl

/-- A name with a separator at its start is resolved to what follows it, whatever the file declares. The
other queries pass over all separators at its start. A namespace is then known by exactly the name that is
left, and the answers about an element of another kind are about the one with this name just where it does
not stray. Where it does, they are about the element of the first namespace of the file that has it, though
none has this name. -/
theorem absolute_queries (h : f.buildIndex.outcome = .ok index) (name : String) :
    (∀ past kinds lookup,
      f.answerAfter past (.ofIndex (.qualify ("\\" ++ name) kinds lookup)) = .ok name ∧
        f.answerAfter past (.ofIndex (.fullyQualify ("\\" ++ name) kinds lookup)) =
          .ok ("\\" ++ name)) ∧
    (∀ past, f.answerAfter past (.ofIndex (.hasNamespace ("\\" ++ name))) =
      .ok ((index.names .namespaceKind).contains (Name.relative name))) ∧
    ∀ kind,
      (f.AnswersFor index kind ("\\" ++ name) (Name.relative name) ↔
        ¬ index.Strays kind (Name.relative name)) ∧
      (index.Strays kind (Name.relative name) → ∃ space,
        (index.names .namespaceKind).find?
          (index.contains kind <| Name.join · (Name.relative name)) = some space ∧
        f.Gives index kind ("\\" ++ name) (Name.join space (Name.relative name))) := by
  refine ⟨fun past kinds lookup => ⟨?_, ?_⟩, fun past => ?_, fun kind => ?_⟩
  · rw [answerAfter_ofIndex h]
    show SourceFile.qualify f _ kinds lookup index = .ok name
    rw [SourceFile.qualify, Name.qualify_separator_append]
    rfl
  · rw [answerAfter_ofIndex h]
    show SourceFile.fullyQualify f _ kinds lookup index = .ok _
    rw [SourceFile.fullyQualify, Name.fullyQualify, Name.qualify_separator_append]
    rfl
  · rw [answerAfter_ofIndex h]
    show Except.ok (hasNamespace _ index) = _
    rw [hasNamespace, Name.relative_separator_append]
    rfl
  · have hfind := find?_separator_append h kind name
    have hstray : index.Strays kind (Name.relative name) → ∃ space,
        (index.names .namespaceKind).find?
          (index.contains kind <| Name.join · (Name.relative name)) = some space ∧
        f.Gives index kind ("\\" ++ name) (Name.join space (Name.relative name)) := by
      intro hstrays
      obtain ⟨space, hfirst, hlookup⟩ := hstrays.lookup?_eq
      have hcontains := List.find?_some hfirst
      exact ⟨space, hfirst, gives_of_find? h (hfind.trans hlookup) hcontains⟩
    refine ⟨⟨fun hanswers hstrays => ?_, fun hstrays => ?_⟩, hstray⟩
    · obtain ⟨space, -, hgives⟩ := hstray hstrays
      rw [AnswersFor, hstrays.absent, if_neg Bool.false_ne_true] at hanswers
      exact hgives.not_lacks hanswers
    · unfold AnswersFor
      split_ifs with hcontains
      · exact gives_of_find? h (hfind.trans (DeclarationIndex.lookup?_of_contains hcontains)) hcontains
      · rw [Bool.not_eq_true] at hcontains
        exact lacks_of_find? h (hfind.trans (DeclarationIndex.lookup?_eq_none hcontains hstrays))

/-- The function of a namespace is given for a name that the resolver takes to be that of a global
function, which there is not. -/
theorem absolute_queries_registeredFile : ∃ index, registeredFile.buildIndex.outcome = .ok index ∧
    index.contains .functionKind "f" = false ∧
    registeredFile.answerAfter [] (.ofIndex (.qualify "\\f" none {})) = .ok "f" ∧
    registeredFile.answerAfter [] (.ofIndex (.has .functionKind "\\f")) = .ok true ∧
    ¬ registeredFile.AnswersFor index .functionKind "\\f" "f" := by
  obtain ⟨index, hindex⟩ : ∃ index, registeredFile.buildIndex.outcome = .ok index :=
    exists_ok_of_isOk (by decide +kernel)
  have habsent : index.contains .functionKind "f" = false :=
    read_of_eq_ok (·.contains .functionKind "f") hindex (by decide +kernel)
  have hspaces : index.names .namespaceKind = ["N"] :=
    read_of_eq_ok (·.names .namespaceKind) hindex (by decide +kernel)
  have hinside : index.contains .functionKind "N\\f" = true :=
    read_of_eq_ok (·.contains .functionKind "N\\f") hindex (by decide +kernel)
  have hstrays : index.Strays .functionKind "f" :=
    ⟨habsent, by decide, "N", by rw [hspaces]; exact List.mem_singleton.mpr rfl, hinside⟩
  obtain ⟨hresolved, -, hanswers⟩ := absolute_queries hindex "f"
  obtain ⟨hexact, hstray⟩ := hanswers .functionKind
  have hplain : Name.relative "f" = "f" := by decide
  rw [hplain] at hexact hstray
  obtain ⟨space, -, hgives⟩ := hstray hstrays
  exact ⟨index, hindex, habsent, (hresolved [] none {}).1, hgives.has [],
    fun hfor => hexact.mp hfor hstrays⟩

end Reflection.SourceFile
