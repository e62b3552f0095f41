import Reflection.Proofs.Name.Lookup

/-!
# Resolving under several kinds

Which kinds are requested matters only as a set, namespaces and imports apart. For two sets of kinds
together a name is resolved to what it is resolved to for one of them: to the result that comes first
among the names that are tried, whichever kind it is found under. The registered types are asked only
where this fails.

## Main definitions

* `Name.Requests`: a collection of kinds asks for a kind.
* `Name.earlier`: of two results, the one that is tried first.

## Main statements

* `Name.find?_or`: what is found first for one of two conditions.
* `Name.qualify_kinds`: resolution for a union of kinds, for the same kinds, and among registered types.
-/
namespace Reflection.Name

/-- A collection of kinds asks for a kind; without a collection every kind is asked for. -/
def Requests (kinds : Option (List DeclarationKind)) (kind : DeclarationKind) : Prop :=
  ∀ wanted ∈ kinds, kind ∈ wanted

/-- Of two results the one whose name is tried first; a failure gives way to any name. -/
def earlier (tried : List String) :
    Except SymbolFault String → Except SymbolFault String → Except SymbolFault String
  | .ok a, .ok b => .ok (if tried.idxOf b < tried.idxOf a then b else a)
  | .ok a, .error _ => .ok a
  | .error _, result => result

/-! ## What is found first -/

/-- The first element that satisfies one of two conditions is the earlier one of those that are found
for each of them. -/
theorem find?_or {p q : String → Bool} {xs : List String} :
    xs.find? (fun x => p x || q x) =
      match xs.find? p, xs.find? q with
      | some a, some b => some (if xs.idxOf b < xs.idxOf a then b else a)
      | some a, none => some a
      | none, found => found := by
  induction xs with
  | nil => rfl
  | cons x xs ih =>
    have hne {r : String → Bool} {a : String} (hx : r x = false) (ha : xs.find? r = some a) :
        x ≠ a := by
      rintro rfl
      rw [List.find?_some ha] at hx
      cases hx
    by_cases hp : p x = true
    · rw [List.find?_cons_of_pos (by simp [hp]), List.find?_cons_of_pos hp]
      cases List.find? q (x :: xs) <;> simp
    · have hp' : p x = false := by simpa using hp
      rw [List.find?_cons_of_neg (p := p) hp]
      by_cases hq : q x = true
      · rw [List.find?_cons_of_pos (by simp [hq]), List.find?_cons_of_pos hq]
        cases ha : xs.find? p with
        | none => rfl
        | some a => simp [List.idxOf_cons_ne xs (hne hp' ha)]
      · have hq' : q x = false := by simpa using hq
        rw [List.find?_cons_of_neg (by simp [hp', hq']), List.find?_cons_of_neg (p := q) hq, ih]
        cases ha : xs.find? p with
        | none => rfl
        | some a =>
          cases hb : xs.find? q with
          | none => rfl
          | some b => simp [List.idxOf_cons_ne xs (hne hp' ha), List.idxOf_cons_ne xs (hne hq' hb)]

/-! ## Requested kinds -/

variable {kinds kinds' kinds₁ kinds₂ : Option (List DeclarationKind)} {kind : DeclarationKind}

theorem mem_requestedKinds_iff :
    kind ∈ requestedKinds kinds ↔
      kind ≠ .namespaceKind ∧ kind ≠ .useKind ∧ Requests kinds kind := by
  have horder : kind ∈ DeclarationKind.resolutionOrder ↔
      kind ≠ .namespaceKind ∧ kind ≠ .useKind := by
    cases kind <;> decide
  cases kinds with
  | none => simp [requestedKinds, Requests, horder]
  | some wanted => simp [requestedKinds, Requests, horder, and_assoc]

variable {index : DeclarationIndex} {registry registry' : Option SymbolRegistry} {name : String}
  {options : LookupOptions}

/-- A name is declared under one of the kinds that a collection asks for. -/
def declared (index : DeclarationIndex) (kinds : Option (List DeclarationKind)) (name : String) : Bool :=
  (requestedKinds kinds).any (index.contains · name)

theorem declared_congr (h : ∀ kind, kind ≠ .namespaceKind → kind ≠ .useKind →
      (Requests kinds kind ↔ Requests kinds' kind)) :
    declared index kinds = declared index kinds' := by
  have hmem (kind : DeclarationKind) : kind ∈ requestedKinds kinds ↔ kind ∈ requestedKinds kinds' := by
    rw [mem_requestedKinds_iff, mem_requestedKinds_iff]
    exact and_congr_right fun hspace => and_congr_right fun huse => h kind hspace huse
  funext name
  rw [declared, declared, Bool.eq_iff_iff, List.any_eq_true, List.any_eq_true]
  simp only [hmem]

theorem declared_union (h : ∀ kind, kind ≠ .namespaceKind → kind ≠ .useKind →
      (Requests kinds kind ↔ Requests kinds₁ kind ∨ Requests kinds₂ kind)) :
    declared index kinds = fun name => declared index kinds₁ name || declared index kinds₂ name := by
  have hmem (kind : DeclarationKind) : kind ∈ requestedKinds kinds ↔
      kind ∈ requestedKinds kinds₁ ∨ kind ∈ requestedKinds kinds₂ := by
    simp only [mem_requestedKinds_iff, ← and_or_left]
    exact and_congr_right fun hspace => and_congr_right fun huse => h kind hspace huse
  funext name
  rw [declared, declared, declared, Bool.eq_iff_iff, Bool.or_eq_true]
  simp only [List.any_eq_true, hmem, or_and_right, exists_or]

/-! ## Resolution -/

/-- What a name stands for whatever is declared: an absolute name and an alias do not depend on kinds,
namespaces and registered types. -/
def fixed? (index : DeclarationIndex) (name : String) : Option String :=
  if isAbsolute name then some (String.ofList (name.toList.drop 1))
  else Table.find? index.imports name

/-- The name that is found among those that are tried: a declared one, or else a registered type. -/
theorem qualify_eq :
    qualify index registry name kinds options =
      match (fixed? index name).or ((candidates index options name).find? (declared index kinds)) with
      | some found => .ok found
      | none =>
        match (registry.filter fun _ => options.globalLookup).bind fun r =>
          (candidates index options name).find? fun c => (r.type? c).isSome with
        | some found => .ok found
        | none => .error (.notFound name none) := by
  unfold qualify fixed?
  by_cases habsolute : isAbsolute name = true
  · simp only [habsolute, if_true, Option.some_or]
  · simp only [habsolute]
    cases Table.find? index.imports name <;> rfl

/-- Without registered types the kinds decide alone. -/
theorem qualify_local (namespaces : Option (List String)) :
    qualify index registry name kinds ⟨namespaces, false⟩ =
      match (fixed? index name).or
        ((candidates index ⟨namespaces, false⟩ name).find? (declared index kinds)) with
      | some found => .ok found
      | none => .error (.notFound name none) := by
  rw [qualify_eq]
  cases registry <;> rfl

theorem qualify_congr (namespaces : Option (List String))
    (h : ∀ kind, kind ≠ .namespaceKind → kind ≠ .useKind →
      (Requests kinds kind ↔ Requests kinds' kind)) :
    qualify index registry name kinds ⟨namespaces, false⟩ =
      qualify index registry name kinds' ⟨namespaces, false⟩ := by
  rw [qualify_local, qualify_local, declared_congr h]

theorem qualify_union (namespaces : Option (List String))
    (h : ∀ kind, kind ≠ .namespaceKind → kind ≠ .useKind →
      (Requests kinds kind ↔ Requests kinds₁ kind ∨ Requests kinds₂ kind)) :
    qualify index registry name kinds ⟨namespaces, false⟩ =
      earlier (candidates index ⟨namespaces, false⟩ name)
        (qualify index registry name kinds₁ ⟨namespaces, false⟩)
        (qualify index registry name kinds₂ ⟨namespaces, false⟩) := by
  rw [qualify_local, qualify_local, qualify_local, declared_union h, find?_or]
  cases fixed? index name with
  | some found => simp [earlier]
  | none =>
    simp only [Option.none_or]
    cases (candidates index ⟨namespaces, false⟩ name).find? (declared index kinds₁) <;>
      cases (candidates index ⟨namespaces, false⟩ name).find? (declared index kinds₂) <;> rfl

/-- The registered types count where the declarations and imports of the file do not decide. -/
theorem qualify_globally (registry registry' : Option SymbolRegistry)
    (namespaces : Option (List String)) :
    qualify index registry' name kinds ⟨namespaces, true⟩ =
      match qualify index registry name kinds ⟨namespaces, false⟩ with
      | .ok found => .ok found
      | .error fault =>
        match registry'.bind fun r =>
          (candidates index ⟨namespaces, false⟩ name).find? fun c => (r.type? c).isSome with
        | some found => .ok found
        | none => .error fault := by
  have hcandidates : candidates index ⟨namespaces, true⟩ name =
      candidates index ⟨namespaces, false⟩ name := rfl
  have hregistry : (registry'.filter fun _ => true) = registry' := by
    cases registry' <;> rfl
  rw [qualify_local, qualify_eq, hcandidates, hregistry]
  cases (fixed? index name).or
    ((candidates index ⟨namespaces, false⟩ name).find? (declared index kinds)) <;> rfl

theorem isOk_earlier (tried : List String) (a b : Except SymbolFault String) :
    (earlier tried a b).isOk = true ↔ a.isOk = true ∨ b.isOk = true := by
  cases a <;> cases b <;> simp [earlier, Except.isOk, Except.toBool]

/-- Which kinds are asked for matters as a set, namespaces and imports apart, so neither their order nor
repetitions count. A name is resolved for the kinds of two collections together just where it is for one
of them, and then to the result that is tried first: the name itself, then the name in each namespace.
Registered types never change such an answer. Where there is none, the first of the tried names that is a
registered type is the answer. -/
theorem qualify_kinds (index : DeclarationIndex) (registry registry' : Option SymbolRegistry)
    (name : String) (namespaces : Option (List String)) :
    let tried := candidates index ⟨namespaces, false⟩ name
    let resolve (kinds : Option (List DeclarationKind)) :=
      qualify index registry name kinds ⟨namespaces, false⟩
    let resolveGlobally (kinds : Option (List DeclarationKind)) :=
      qualify index registry' name kinds ⟨namespaces, true⟩
    (∀ kinds kinds₁ kinds₂, (∀ kind, kind ≠ .namespaceKind → kind ≠ .useKind →
        (Requests kinds kind ↔ Requests kinds₁ kind ∨ Requests kinds₂ kind)) →
      ((resolve kinds).isOk = true ↔ (resolve kinds₁).isOk = true ∨ (resolve kinds₂).isOk = true) ∧
        resolve kinds = earlier tried (resolve kinds₁) (resolve kinds₂)) ∧
    (∀ kinds kinds', (∀ kind, kind ≠ .namespaceKind → kind ≠ .useKind →
        (Requests kinds kind ↔ Requests kinds' kind)) → resolve kinds = resolve kinds') ∧
    ∀ kinds,
      (∀ found, resolve kinds = .ok found → resolveGlobally kinds = .ok found) ∧
      ∀ fault, resolve kinds = .error fault →
        resolveGlobally kinds =
          match registry'.bind fun r => tried.find? fun c => (r.type? c).isSome with
          | some found => .ok found
          | none => .error fault := by
  intro tried resolve resolveGlobally
  have hglobal (kinds : Option (List DeclarationKind)) : resolveGlobally kinds =
      match resolve kinds with
      | .ok found => .ok found
      | .error fault =>
        match registry'.bind fun r => tried.find? fun c => (r.type? c).isSome with
        | some found => .ok found
        | none => .error fault := qualify_globally registry registry' namespaces
  refine ⟨fun kinds kinds₁ kinds₂ h => ?_, fun kinds kinds' h => qualify_congr namespaces h,
    fun kinds => ⟨fun found hfound => ?_, fun fault hfault => ?_⟩⟩
  · have hunion : resolve kinds = earlier tried (resolve kinds₁) (resolve kinds₂) :=
      qualify_union namespaces h
    exact ⟨by rw [hunion, isOk_earlier], hunion⟩
  · rw [hglobal, hfound]
  · rw [hglobal, hfault]

/-- Two namespaces, of which the former has a function and the latter a class of one name. -/
def mixedSpaces : List Addition :=
  let declare (kind : DeclarationKind) (name : String) (definition : Definition) : Addition :=
    ⟨⟨kind, name, {}, default, ""⟩, definition⟩
  [declare .namespaceKind "A" (.text "A"), declare .namespaceKind "B" (.text "B"),
    declare .functionKind "A\\f" (.text "A\\f"), declare .classKind "B\\f" (.text "B\\f")]

/-- The class is tried before the function, but the namespace of the function before that of the class.
A registered type is found only under a name that the file does not declare. -/
theorem qualify_kinds_mixedSpaces :
    let index := (DeclarationIndex.fill mixedSpaces).1
    let registry : SymbolRegistry := ⟨[("a\\f", .text "f"), ("b\\g", .text "g")], [], []⟩
    qualify index none "f" (some [.classKind, .functionKind]) {} = .ok "A\\f" ∧
      qualify index none "f" (some [.useKind, .classKind, .classKind]) {} = .ok "B\\f" ∧
      qualify index (some registry) "f" (some [.classKind]) ⟨none, true⟩ = .ok "B\\f" ∧
      qualify index (some registry) "g" (some [.classKind]) ⟨none, true⟩ = .ok "B\\g" := by
  intro index registry
  have hclass : qualify index none "f" (some [.classKind]) {} = .ok "B\\f" := by decide
  have hfunction : qualify index none "f" (some [.functionKind]) {} = .ok "A\\f" := by decide
  have hnone : qualify index none "g" (some [.classKind]) {} = .error (.notFound "g" none) := by decide
  obtain ⟨hunion, hsame, hglobal⟩ := qualify_kinds index none (some registry) "f" none
  obtain ⟨-, -, hglobal'⟩ := qualify_kinds index none (some registry) "g" none
  refine ⟨?_, ?_, (hglobal _).1 _ hclass, ?_⟩
  · have h := (hunion (some [.classKind, .functionKind]) (some [.classKind]) (some [.functionKind])
      fun kind _ _ => by simp [Requests]).2
    exact h.trans ((congrArg₂ _ hclass hfunction).trans (by decide))
  · have h := hsame (some [.useKind, .classKind, .classKind]) (some [.classKind]) fun kind _ huse => by
      simp [Requests, huse]
    exact h.trans hclass
  · exact ((hglobal' (some [.classKind])).2 _ hnone).trans (by decide +kernel)

end Reflection.Name
