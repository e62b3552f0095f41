import Reflection.Proofs.Declaration.Symbols
import Reflection.Proofs.Inspection.History

/-!
# When the symbols of a file are looked up

The functions and structures of a file stand for their names where its symbols are not looked up. They
may be looked up whenever one is asked for, or all of them when the index is built. The index can then
be built just where all of them are registered, and with it both ways give the same handles. Everything
else that can be asked for is the same in all three modes.

## Main definitions

* `ResolutionModes`: flags for the three modes.
* `SourceFile.Registered`: every function and structure of a file has a handle.
* `SourceFile.Resolves`: an answer without and with a lookup of symbols.
* `Query.HidesSymbols`: queries that do not show what functions and structures stand for.

## Main statements

* `SourceFile.answer_eq_of_redefine`: what does not depend on the mode.
* `resolution_modes`: the three modes of a file.
-/
namespace Reflection

variable {f f' : SourceFile} {index : DeclarationIndex} {kind : DeclarationKind} {name : String}

/-- Flags for three modes that differ in when symbols are looked up: never, when one is asked for, and
when the index is built. -/
structure ResolutionModes where
  unresolved : FileFlags
  autoloadable : FileFlags
  loaded : FileFlags
  isLoaded_unresolved : unresolved.isLoaded = false
  isAutoloadable_unresolved : unresolved.isAutoloadable = false
  isLoaded_autoloadable : autoloadable.isLoaded = false
  isAutoloadable_autoloadable : autoloadable.isAutoloadable = true
  isLoaded_loaded : loaded.isLoaded = true
  isSafe_autoloadable : autoloadable.isSafe = unresolved.isSafe
  isSafe_loaded : loaded.isSafe = unresolved.isSafe

namespace SourceFile

/-- The file with other flags. -/
def withFlags (f : SourceFile) (flags : FileFlags) : SourceFile := { f with flags := flags }

/-- The answer to a query after other ones. -/
def answerAfter (f : SourceFile) (history : List Query) (q : Query) : Except SourceFault q.Answer :=
  (q.ask ((Inspection.start f).after history)).2.outcome

theorem answerAfter_eq (f : SourceFile) (history : List Query) (q : Query) :
    f.answerAfter history q = f.answer q :=
  (((Inspection.coherent_start f).after history).ask q).2

/-! ## Handles -/

/-- The handle under which a function or structure is registered. -/
def handle? (f : SourceFile) (kind : DeclarationKind) (name : String) : Option Handle :=
  f.registry.bind fun r => if kind = .functionKind then r.function? name else r.type? name

/-- Every function and structure of an index is registered, functions as functions and structures as
types. -/
def Registered (f : SourceFile) (index : DeclarationIndex) : Prop :=
  ∀ kind ∈ scopedKinds, ∀ name ∈ index.names kind, (f.handle? kind name).isSome = true

/-- The fault of a symbol that is not registered. -/
def notRegistered (f : SourceFile) (name : String) : SymbolFault :=
  if f.registry.isSome then .notLoaded name else .noRegistry name

/-- A symbol is bound to its handle. -/
theorem bind_eq_handle (f : SourceFile) (kind : DeclarationKind) (name : String) :
    f.bind kind name =
      match f.handle? kind name with
      | some h => .ok (.ofHandle h)
      | none => .error (f.notRegistered name) := by
  unfold bind handle? notRegistered
  cases f.registry with
  | none => rfl
  | some r =>
    by_cases hkind : kind = .functionKind
    · simp only [hkind, if_true, SymbolRegistry.getFunction, Option.bind_some]
      cases r.function? name <;> rfl
    · simp only [hkind, if_false, SymbolRegistry.getType, Option.bind_some]
      cases r.type? name <;> rfl

theorem bind_eq_ok_iff {v : Definition} :
    f.bind kind name = .ok v ↔ ∃ h, f.handle? kind name = some h ∧ v = .ofHandle h := by
  rw [bind_eq_handle]
  cases f.handle? kind name <;> simp [eq_comm]

theorem bind_eq_error_iff {fault : SymbolFault} :
    f.bind kind name = .error fault ↔ f.handle? kind name = none ∧ fault = f.notRegistered name := by
  rw [bind_eq_handle]
  cases f.handle? kind name <;> simp [eq_comm]

/-- An answer without a lookup of symbols, and with one: the same fault, or a name that is registered
and its handle. -/
def Resolves (f : SourceFile) (kind : DeclarationKind) (named bound : Except SourceFault Definition) :
    Prop :=
  (∃ fault, named = .error fault ∧ bound = .error fault) ∨
    ∃ key h, f.handle? kind key = some h ∧ named = .ok (.text key) ∧ bound = .ok (.ofHandle h)

/-! ## Answers from indexes that differ in what names stand for -/

section

variable {g : DeclarationKind → String → Definition → Definition}

theorem find?_redefine (huse : ∀ name v, g .useKind name v = v) (kind : DeclarationKind)
    (name : String) : find? (index.redefine g) kind name = find? index kind name := by
  have hlookup : (index.redefine g).lookup? kind = index.lookup? kind :=
    funext fun name => DeclarationIndex.lookup?_redefine g index kind name
  rw [find?, find?, hlookup, DeclarationIndex.imports_redefine huse]

theorem getKey_redefine (huse : ∀ name v, g .useKind name v = v) (kind : DeclarationKind)
    (name : String) : getKey (index.redefine g) kind name = getKey index kind name := by
  rw [getKey, getKey, find?_redefine huse]

theorem structureKind?_redefine (huse : ∀ name v, g .useKind name v = v) (name : String) :
    structureKind? name (index.redefine g) = structureKind? name index := by
  simp only [structureKind?, has, find?_redefine huse]

theorem getStructureKind_redefine (huse : ∀ name v, g .useKind name v = v) (name : String) :
    getStructureKind name (index.redefine g) = getStructureKind name index := by
  rw [getStructureKind, getStructureKind, structureKind?_redefine huse]

theorem getDeclaration_redefine (huse : ∀ name v, g .useKind name v = v) (kind : DeclarationKind)
    (name : String) :
    getDeclaration kind name (index.redefine g) = getDeclaration kind name index := by
  simp only [getDeclaration, getKey_redefine huse, DeclarationIndex.declaration?_redefine]

theorem structureDeclaration_redefine (huse : ∀ name v, g .useKind name v = v) (name : String) :
    structureDeclaration name (index.redefine g) = structureDeclaration name index := by
  simp only [structureDeclaration, getStructureKind_redefine huse, getDeclaration_redefine huse]

theorem qualify_redefine (huse : ∀ name v, g .useKind name v = v) (registry : Option SymbolRegistry)
    (name : String) (kinds : Option (List DeclarationKind)) (options : LookupOptions) :
    Name.qualify (index.redefine g) registry name kinds options =
      Name.qualify index registry name kinds options := by
  simp only [Name.qualify, Name.candidates, DeclarationIndex.imports_redefine huse,
    DeclarationIndex.names_redefine, DeclarationIndex.contains_redefine]

end

end SourceFile

/-- The answer to a query to the index does not show what functions and structures stand for. -/
def IndexQuery.HidesSymbols : IndexQuery → Prop
  | .index | .structures | .getStructure _ => False
  | .elements kind => kind ∉ scopedKinds
  | .get kind _ => kind = .constKind
  | _ => True

/-- The answer to a query does not show what functions and structures stand for. -/
def Query.HidesSymbols : Query → Prop
  | .ofIndex q => q.HidesSymbols
  | _ => True

namespace SourceFile

variable {g : DeclarationKind → String → Definition → Definition}

/-- A name that is not looked up stands for itself. -/
theorem get_of_text {key s : String} (hkey : getKey index kind name = .ok key)
    (hvalue : index.value? kind key = some (.text s))
    (hflags : ¬ (f.flags.isLoaded = true ∨ f.flags.isAutoloadable = true)) :
    f.get kind name index = .ok (.text s) := by
  rw [SourceFile.get, bind_of_eq_ok hkey, hvalue]
  exact if_neg fun h => hflags h.2

/-- A name that is looked up stands for what it is bound to. -/
theorem get_of_bind {key s : String} {v : Definition} (hconst : kind ≠ .constKind)
    (hkey : getKey index kind name = .ok key) (hvalue : index.value? kind key = some (.text s))
    (hflags : f.flags.isLoaded = true ∨ f.flags.isAutoloadable = true)
    (hbind : f.bind kind key = .ok v) : f.get kind name index = .ok v := by
  rw [SourceFile.get, bind_of_eq_ok hkey, hvalue]
  refine (if_pos ⟨hconst, hflags⟩).trans ?_
  rw [hbind]
  rfl

theorem get_of_object {key label : String} (hkey : getKey index kind name = .ok key)
    (hvalue : index.value? kind key = some (.object label)) :
    f.get kind name index = .ok (.object label) := by
  rw [SourceFile.get, bind_of_eq_ok hkey, hvalue]

theorem get_of_none {key : String} (hkey : getKey index kind name = .ok key)
    (hvalue : index.value? kind key = none) :
    f.get kind name index = .error (.symbol (.notFound name (some kind))) := by
  rw [SourceFile.get, bind_of_eq_ok hkey, hvalue]

theorem get_of_error {fault : SourceFault} (hkey : getKey index kind name = .error fault) :
    f.get kind name index = .error fault := by
  rw [SourceFile.get, hkey]
  rfl

/-- What the name of a constant stands for is not looked up. -/
theorem get_constKind (f f' : SourceFile) (name : String) (index : DeclarationIndex) :
    f'.get .constKind name index = f.get .constKind name index := by
  unfold get
  simp only [ne_eq, not_true_eq_false, false_and, if_false]

/-- A query that hides what symbols stand for does not tell indexes apart that differ in this. -/
theorem answer_redefine (hg : ∀ kind ∉ scopedKinds, ∀ name v, g kind name v = v)
    (hregistry : f'.registry = f.registry) (index : DeclarationIndex) {q : IndexQuery}
    (hq : q.HidesSymbols) : q.answer f' (index.redefine g) = q.answer f index := by
  have huse := hg .useKind (by decide)
  cases q with
  | index => exact hq.elim
  | structures => exact hq.elim
  | getStructure name => exact hq.elim
  | names kind => simp only [IndexQuery.answer, DeclarationIndex.names_redefine]
  | elements kind =>
    simp only [IndexQuery.answer, DeclarationIndex.elements_redefine_of_eq (hg kind hq)]
  | structureNames =>
    have hnames : (index.redefine g).names = index.names :=
      funext fun kind => DeclarationIndex.names_redefine g index kind
    simp only [IndexQuery.answer, structureNames, hnames]
  | has kind name => simp only [IndexQuery.answer, has, find?_redefine huse]
  | hasNamespace name =>
    simp only [IndexQuery.answer, hasNamespace, DeclarationIndex.names_redefine]
  | hasStructure name => simp only [IndexQuery.answer, structureKind?_redefine huse]
  | structureKind name => simp only [IndexQuery.answer, structureKind?_redefine huse]
  | declaration kind name => exact getDeclaration_redefine huse kind name
  | get kind name =>
    cases (hq : kind = .constKind)
    have hvalue (key : String) :
        (index.redefine g).value? .constKind key = index.value? .constKind key :=
      DeclarationIndex.value?_redefine_of_eq (hg .constKind (by decide))
    refine (get_constKind f f' name _).trans ?_
    show f.get .constKind name (index.redefine g) = f.get .constKind name index
    simp only [get, getKey_redefine huse, hvalue]
  | qualify name kinds options =>
    simp only [IndexQuery.answer, qualify, qualify_redefine huse, hregistry]
    rfl
  | fullyQualify name kinds options =>
    simp only [IndexQuery.answer, fullyQualify, Name.fullyQualify, qualify_redefine huse, hregistry]
    rfl

/-- Files whose indexes differ in what functions and structures stand for, and which read structures
alike, give the same answers where these do not show it. -/
theorem answer_eq_of_redefine (f f' : SourceFile)
    (hg : ∀ kind ∉ scopedKinds, ∀ name v, g kind name v = v)
    (hregistry : f'.registry = f.registry)
    (hbuild : f'.buildIndex.outcome = f.buildIndex.outcome.map (·.redefine g))
    (hread : ∀ s, (f'.readStructure s).outcome = (f.readStructure s).outcome) {q : Query}
    (hq : q.HidesSymbols) : f'.answer q = f.answer q := by
  have hconstants (name : String) : f'.structureConstants name = f.structureConstants name := by
    unfold structureConstants
    rw [hbuild]
    cases f.buildIndex.outcome with
    | error fault => rfl
    | ok index =>
      show structureDeclaration name (index.redefine g) >>= _ = structureDeclaration name index >>= _
      simp only [structureDeclaration_redefine (hg .useKind (by decide)), hread]
  cases q with
  | ofIndex q =>
    unfold answer
    rw [hbuild]
    cases f.buildIndex.outcome with
    | error fault => rfl
    | ok index => exact answer_redefine hg hregistry index hq
  | structureConstants name => exact hconstants name
  | structureConstant owner name => simp only [answer, hconstants]

/-! ## Indexes -/

theorem outcome_buildIndex {tokens : List Token} (h : f.tokens = .ok tokens) :
    f.buildIndex.outcome = (scan f.scanOptions tokens).outcome.mapError .scan := by
  rw [buildIndex, Report.outcome_bind]
  exact bind_of_eq_ok h _

theorem exists_scan_of_buildIndex (h : f.buildIndex.outcome = .ok index) :
    ∃ tokens, f.tokens = .ok tokens ∧ (scan f.scanOptions tokens).outcome = .ok index := by
  rw [buildIndex, Report.outcome_bind] at h
  obtain ⟨tokens, htokens, h⟩ := exists_ok_of_bind h
  refine ⟨tokens, htokens, ?_⟩
  cases hscan : (scan f.scanOptions tokens).outcome with
  | ok found =>
    rw [Report.mapError, hscan] at h
    cases h
    rfl
  | error fault =>
    rw [Report.mapError, hscan] at h
    cases h

end SourceFile

open SourceFile

namespace ResolutionModes

variable (m : ResolutionModes) (f : SourceFile)

theorem define_loaded : (f.withFlags m.loaded).scanOptions.define = f.bind := by
  simp [scanOptions, withFlags, m.isLoaded_loaded]
  rfl

theorem scanOptions_unresolved :
    (f.withFlags m.unresolved).scanOptions = (f.withFlags m.loaded).scanOptions.named := by
  simp [scanOptions, withFlags, ScanOptions.named, m.isLoaded_unresolved, m.isSafe_loaded]

theorem scanOptions_autoloadable :
    (f.withFlags m.autoloadable).scanOptions = (f.withFlags m.unresolved).scanOptions := by
  simp [scanOptions, withFlags, m.isLoaded_unresolved, m.isLoaded_autoloadable,
    m.isSafe_autoloadable]

/-- Before symbols are looked up the index is the same whether they will be or not. -/
theorem buildIndex_autoloadable :
    (f.withFlags m.autoloadable).buildIndex = (f.withFlags m.unresolved).buildIndex := by
  rw [buildIndex, buildIndex, scanOptions_autoloadable]
  rfl

/-- Structures are read alike, since what symbols stand for plays no part in it. -/
theorem readStructure_eq (s : Scope) :
    (f.withFlags m.autoloadable).readStructure s = (f.withFlags m.unresolved).readStructure s ∧
      (f.withFlags m.loaded).readStructure s = (f.withFlags m.unresolved).readStructure s := by
  refine ⟨?_, ?_⟩
  · rw [readStructure, readStructure, scanOptions_autoloadable]
    rfl
  · have hscan (tokens : List Token) (options : ScanOptions) :
        scanStructureConstants options.named tokens s = scanStructureConstants options tokens s := rfl
    simp only [readStructure, scanOptions_unresolved, hscan]
    rfl

variable {m f}

/-- The symbols of an index with their handles are registered. -/
theorem registered_of_scan {tokens : List Token}
    (h : (scan (f.withFlags m.loaded).scanOptions tokens).outcome = .ok index) :
    f.Registered index := by
  intro kind hkind name hname
  obtain ⟨v, hv⟩ := exists_define_of_scan h hkind hname
  rw [define_loaded] at hv
  obtain ⟨handle, hhandle, -⟩ := bind_eq_ok_iff.mp hv
  rw [hhandle]
  rfl

/-- Where the index can be built with the handles of all symbols, these are registered, and the index
with their names is the same in every other respect. -/
theorem unresolved_of_loaded (h : (f.withFlags m.loaded).buildIndex.outcome = .ok index) :
    (f.withFlags m.unresolved).buildIndex.outcome = .ok (index.redefine Definition.asName) ∧
      f.Registered (index.redefine Definition.asName) := by
  obtain ⟨tokens, htokens, hscan⟩ := exists_scan_of_buildIndex h
  refine ⟨?_, fun kind hkind name hname => ?_⟩
  · rw [outcome_buildIndex (f := f.withFlags m.unresolved) htokens, scanOptions_unresolved,
      outcome_scan_named hscan]
    rfl
  · rw [DeclarationIndex.names_redefine] at hname
    exact registered_of_scan hscan kind hkind name hname

/-- Where all symbols are registered the index can be built with their handles. -/
theorem loaded_of_unresolved (h : (f.withFlags m.unresolved).buildIndex.outcome = .ok index)
    (hregistered : f.Registered index) :
    (f.withFlags m.loaded).buildIndex.outcome =
      .ok (index.redefine (Definition.asBound f.bind)) := by
  obtain ⟨tokens, htokens, hscan⟩ := exists_scan_of_buildIndex h
  rw [scanOptions_unresolved] at hscan
  have hbound : ∀ kind ∈ scopedKinds, ∀ name ∈ index.names kind,
      ∃ v, (f.withFlags m.loaded).scanOptions.define kind name = .ok v := by
    intro kind hkind name hname
    obtain ⟨handle, hhandle⟩ := Option.isSome_iff_exists.mp (hregistered kind hkind name hname)
    rw [define_loaded]
    exact ⟨_, bind_eq_ok_iff.mpr ⟨handle, hhandle, rfl⟩⟩
  rw [outcome_buildIndex (f := f.withFlags m.loaded) htokens, outcome_scan_of_named hscan hbound,
    define_loaded]
  rfl

/-- Where a symbol is not registered the index cannot be built with the handles, which is reported of
such a symbol. -/
theorem loaded_of_not_registered
    (h : (f.withFlags m.unresolved).buildIndex.outcome = .ok index)
    (hregistered : ¬ f.Registered index) :
    ∃ kind ∈ scopedKinds, ∃ name ∈ index.names kind, f.handle? kind name = none ∧
      (f.withFlags m.loaded).buildIndex.outcome =
        .error (.scan (.symbol (f.notRegistered name))) := by
  obtain ⟨tokens, htokens, hscan⟩ := exists_scan_of_buildIndex h
  rw [scanOptions_unresolved] at hscan
  rw [outcome_buildIndex (f := f.withFlags m.loaded) htokens]
  cases hloaded : (scan (f.withFlags m.loaded).scanOptions tokens).outcome with
  | ok found =>
    -- Both scans list the names that the stream declares.
    refine absurd (fun kind hkind name hname => ?_) hregistered
    refine registered_of_scan hloaded kind hkind name ((mem_names_scan_iff hloaded).mpr ?_)
    exact (mem_names_scan_iff hscan).mp hname
  | error fault =>
    obtain ⟨kind, hkind, name, hname, cause, hcause, rfl⟩ := exists_unbound_of_scan hscan hloaded
    rw [define_loaded] at hcause
    obtain ⟨hnone, rfl⟩ := bind_eq_error_iff.mp hcause
    exact ⟨kind, hkind, name, hname, hnone, rfl⟩

/-- Where symbols are not looked up, functions and structures stand for their names. -/
theorem value?_unresolved (h : (f.withFlags m.unresolved).buildIndex.outcome = .ok index)
    (hkind : kind ∈ scopedKinds) {v : Definition} (hv : index.value? kind name = some v) :
    v = .text name := by
  obtain ⟨tokens, -, hscan⟩ := exists_scan_of_buildIndex h
  rw [scanOptions_unresolved] at hscan
  have hagain : (scan (f.withFlags m.loaded).scanOptions.named.named tokens).outcome =
      .ok (index.redefine Definition.asName) := outcome_scan_named hscan
  have hnamed : index = index.redefine Definition.asName := Except.ok.inj (hscan.symm.trans hagain)
  rw [hnamed, DeclarationIndex.value?_redefine] at hv
  obtain ⟨v', -, rfl⟩ := Option.map_eq_some_iff.mp hv
  exact if_pos hkind

/-! ## Symbols -/

/-- A name leads to the same fault in all modes, or to a registered symbol: without a lookup to its
name, and else to its handle, whether this was looked up before or is now. -/
theorem get_resolves (h : (f.withFlags m.unresolved).buildIndex.outcome = .ok index)
    (hregistered : f.Registered index) (hkind : kind ∈ scopedKinds) (name : String) :
    let named := (f.withFlags m.unresolved).get kind name index
    let bound := (f.withFlags m.loaded).get kind name (index.redefine (Definition.asBound f.bind))
    (f.withFlags m.autoloadable).get kind name index = bound ∧ f.Resolves kind named bound := by
  have hconst : kind ≠ .constKind := by
    rintro rfl
    exact absurd hkind (by decide)
  have huse : ∀ name v, Definition.asBound f.bind .useKind name v = v :=
    Definition.asBound_of_notMem (by decide)
  have hkeys : getKey (index.redefine (Definition.asBound f.bind)) kind name =
      getKey index kind name := getKey_redefine huse kind name
  intro named bound
  cases hkey : getKey index kind name with
  | error fault =>
    have hloaded : bound = .error fault := get_of_error (hkeys.trans hkey)
    rw [hloaded]
    exact ⟨get_of_error hkey, .inl ⟨fault, get_of_error hkey, rfl⟩⟩
  | ok key =>
    have hchanged := DeclarationIndex.value?_redefine (Definition.asBound f.bind) index kind key
    cases hvalue : index.value? kind key with
    | none =>
      rw [hvalue, Option.map_none] at hchanged
      have hloaded : bound = _ := get_of_none (hkeys.trans hkey) hchanged
      rw [hloaded]
      exact ⟨get_of_none hkey hvalue, .inl ⟨_, get_of_none hkey hvalue, rfl⟩⟩
    | some v =>
      cases value?_unresolved h hkind hvalue
      have hname : key ∈ index.names kind :=
        (index.mem_names_iff_isSome_value? kind key).mpr (by rw [hvalue]; rfl)
      obtain ⟨handle, hhandle⟩ := Option.isSome_iff_exists.mp (hregistered kind hkind key hname)
      have hbind : f.bind kind key = .ok (.ofHandle handle) :=
        bind_eq_ok_iff.mpr ⟨handle, hhandle, rfl⟩
      rw [hvalue, Option.map_some, Definition.asBound, if_pos hkind, hbind] at hchanged
      have hnamed : named = .ok (.text key) := by
        refine get_of_text hkey hvalue ?_
        simp [withFlags, m.isLoaded_unresolved, m.isAutoloadable_unresolved]
      have hauto : (f.withFlags m.autoloadable).get kind name index = .ok (.ofHandle handle) :=
        get_of_bind hconst hkey hvalue (.inr m.isAutoloadable_autoloadable) hbind
      -- A handle that is a text looks like a name that was not looked up, and is looked up again.
      have hloaded : bound = .ok (.ofHandle handle) := by
        cases handle with
        | object label => exact get_of_object (hkeys.trans hkey) hchanged
        | text s => exact get_of_bind hconst (hkeys.trans hkey) hchanged (.inl m.isLoaded_loaded) hbind
      rw [hauto, hloaded]
      exact ⟨rfl, .inr ⟨key, handle, hhandle, hnamed, rfl⟩⟩

/-- The name of a structure leads in all modes to the same kind of structures, and then to the same
fault or the same symbol. -/
theorem getStructure_resolves (h : (f.withFlags m.unresolved).buildIndex.outcome = .ok index)
    (hregistered : f.Registered index) (name : String) :
    let named := (f.withFlags m.unresolved).getStructure name index
    let bound := (f.withFlags m.loaded).getStructure name (index.redefine (Definition.asBound f.bind))
    (f.withFlags m.autoloadable).getStructure name index = bound ∧
      ∃ kind ∈ DeclarationKind.structures, f.Resolves kind named bound := by
  have huse : ∀ name v, Definition.asBound f.bind .useKind name v = v :=
    Definition.asBound_of_notMem (by decide)
  intro named bound
  simp only [named, bound, getStructure, getStructureKind_redefine huse]
  cases hfound : getStructureKind name index with
  | error fault => exact ⟨rfl, .classKind, by decide, .inl ⟨fault, rfl, rfl⟩⟩
  | ok kind =>
    have hstructure : kind ∈ DeclarationKind.structures := by
      unfold getStructureKind at hfound
      split at hfound
      · rename_i found hkind
        cases hfound
        exact List.mem_of_find?_eq_some hkind
      · cases hfound
    have hscoped : kind ∈ scopedKinds := by
      revert hstructure
      cases kind <;> decide
    obtain ⟨hauto, hresolves⟩ := get_resolves h hregistered hscoped name
    exact ⟨hauto, kind, hstructure, hresolves⟩

/-- Queries that hide what symbols stand for are answered alike in all modes. -/
theorem answer_autoloadable {q : Query} (hq : q.HidesSymbols) :
    (f.withFlags m.autoloadable).answer q = (f.withFlags m.unresolved).answer q := by
  refine answer_eq_of_redefine (f.withFlags m.unresolved) (f.withFlags m.autoloadable)
    (g := fun _ _ v => v) (fun kind _ name v => rfl) rfl ?_
    (fun s => congrArg Report.outcome (m.readStructure_eq f s).1) hq
  rw [buildIndex_autoloadable]
  cases (f.withFlags m.unresolved).buildIndex.outcome with
  | error fault => rfl
  | ok index => simp [Except.map, DeclarationIndex.redefine, Table.mapValues]

theorem answer_loaded (h : (f.withFlags m.unresolved).buildIndex.outcome = .ok index)
    (hregistered : f.Registered index) {q : Query} (hq : q.HidesSymbols) :
    (f.withFlags m.loaded).answer q = (f.withFlags m.unresolved).answer q := by
  refine answer_eq_of_redefine (f.withFlags m.unresolved) (f.withFlags m.loaded)
    (g := Definition.asBound f.bind) (fun kind hkind => Definition.asBound_of_notMem hkind) rfl ?_
    (fun s => congrArg Report.outcome (m.readStructure_eq f s).2) hq
  rw [loaded_of_unresolved h hregistered, h]
  rfl

end ResolutionModes

open ResolutionModes

/-- The modes of a file agree. Where symbols are looked up as the index is built, this succeeds just
where it does without a lookup and every function and structure is registered, functions as functions
and structures as types; it fails for the lack of a symbol where only that is missing. Where it
succeeds, a function or structure is given as its handle, be that an object or a text, and this is also
what is given where symbols are looked up when they are asked for. All that does not show what symbols
stand for is the same in all modes: names, what there is, kinds of structures, declarations, and
constants, those of structures included. No answer depends on the queries before it. -/
theorem resolution_modes (f : SourceFile) (m : ResolutionModes) :
    let unresolved := f.withFlags m.unresolved
    let autoloadable := f.withFlags m.autoloadable
    let loaded := f.withFlags m.loaded
    ((∃ index, loaded.buildIndex.outcome = .ok index) ↔
      ∃ index, unresolved.buildIndex.outcome = .ok index ∧ f.Registered index) ∧
    (∀ index, unresolved.buildIndex.outcome = .ok index → ¬ f.Registered index →
      ∃ kind ∈ scopedKinds, ∃ name ∈ index.names kind, f.handle? kind name = none ∧
        loaded.buildIndex.outcome = .error (.scan (.symbol (f.notRegistered name)))) ∧
    (∀ past past' q, q.HidesSymbols →
      autoloadable.answerAfter past q = unresolved.answerAfter past' q) ∧
    ((∃ index, loaded.buildIndex.outcome = .ok index) → ∀ past past' past'',
      (∀ kind ∈ scopedKinds, ∀ name,
        let q := Query.ofIndex (.get kind name)
        autoloadable.answerAfter past q = loaded.answerAfter past' q ∧
          f.Resolves kind (unresolved.answerAfter past'' q) (loaded.answerAfter past' q)) ∧
      (∀ name,
        let q := Query.ofIndex (.getStructure name)
        autoloadable.answerAfter past q = loaded.answerAfter past' q ∧
          ∃ kind ∈ DeclarationKind.structures,
            f.Resolves kind (unresolved.answerAfter past'' q) (loaded.answerAfter past' q)) ∧
      ∀ q, q.HidesSymbols → loaded.answerAfter past' q = unresolved.answerAfter past'' q) := by
  intro unresolved autoloadable loaded
  simp only [answerAfter_eq]
  refine ⟨⟨?_, ?_⟩, fun index h => loaded_of_not_registered h,
    fun _ _ q hq => answer_autoloadable hq, ?_⟩
  · intro ⟨index, h⟩
    exact ⟨_, unresolved_of_loaded h⟩
  · intro ⟨index, h, hregistered⟩
    exact ⟨_, loaded_of_unresolved h hregistered⟩
  · intro ⟨index, h⟩ _ _ _
    obtain ⟨hnamed, hregistered⟩ := unresolved_of_loaded h
    have hbound := loaded_of_unresolved hnamed hregistered
    have hauto : autoloadable.buildIndex.outcome = _ :=
      (congrArg Report.outcome (m.buildIndex_autoloadable f)).trans hnamed
    refine ⟨fun kind hkind name => ?_, fun name => ?_, fun q hq => answer_loaded hnamed hregistered hq⟩
    · show (autoloadable.buildIndex.outcome >>= _) = (loaded.buildIndex.outcome >>= _) ∧
        f.Resolves kind (unresolved.buildIndex.outcome >>= _) (loaded.buildIndex.outcome >>= _)
      rw [hauto, hnamed, hbound]
      exact get_resolves hnamed hregistered hkind name
    · show (autoloadable.buildIndex.outcome >>= _) = (loaded.buildIndex.outcome >>= _) ∧
        ∃ kind ∈ DeclarationKind.structures,
          f.Resolves kind (unresolved.buildIndex.outcome >>= _) (loaded.buildIndex.outcome >>= _)
      rw [hauto, hnamed, hbound]
      exact getStructure_resolves hnamed hregistered name

/-- A file with a function and a class, which are registered with a text and an object. -/
def registeredFile : SourceFile where
  path := none
  content := .ok (Text.encodeUtf8 "<?php namespace N; function f { } class C { }")
  tokenize _ := Token.number 0 [⟨.openTag, "<?php ", 1, 0⟩,
    ⟨.namespaceKeyword, "namespace", 1, 0⟩, ⟨.whitespace, " ", 1, 0⟩, ⟨.identifier, "N", 1, 0⟩,
    ⟨.punctuation, ";", 1, 0⟩, ⟨.whitespace, " ", 1, 0⟩,
    ⟨.functionKeyword, "function", 1, 0⟩, ⟨.whitespace, " ", 1, 0⟩, ⟨.identifier, "f", 1, 0⟩,
    ⟨.whitespace, " ", 1, 0⟩, ⟨.punctuation, "\x7b", 1, 0⟩, ⟨.whitespace, " ", 1, 0⟩,
    ⟨.punctuation, "\x7d", 1, 0⟩, ⟨.whitespace, " ", 1, 0⟩,
    ⟨.classKeyword, "class", 1, 0⟩, ⟨.whitespace, " ", 1, 0⟩, ⟨.identifier, "C", 1, 0⟩,
    ⟨.whitespace, " ", 1, 0⟩, ⟨.punctuation, "\x7b", 1, 0⟩, ⟨.whitespace, " ", 1, 0⟩,
    ⟨.punctuation, "\x7d", 1, 0⟩]
  flags := .none
  registry := some { types := [("n\\c", .object "C")], functions := [("n\\f", .text "feed")] }
  room := 32

/-- The modes that evaluate constants. -/
def safeModes : ResolutionModes where
  unresolved := .safe
  autoloadable := ⟨3⟩
  loaded := ⟨5⟩
  isLoaded_unresolved := by decide
  isAutoloadable_unresolved := by decide
  isLoaded_autoloadable := by decide
  isAutoloadable_autoloadable := by decide
  isLoaded_loaded := by decide
  isSafe_autoloadable := by decide
  isSafe_loaded := by decide

/-- A handle that is a text is given as it stands, though it looks like a name. Without the class in
the registry the index cannot be built. -/
theorem resolution_modes_registeredFile :
    let get := Query.ofIndex (.get .functionKind "f")
    let getStructure := Query.ofIndex (.getStructure "C")
    let loaded := registeredFile.withFlags safeModes.loaded
    let autoloadable := registeredFile.withFlags safeModes.autoloadable
    let partly : SourceFile :=
      { registeredFile with registry := some { functions := [("n\\f", .text "feed")] } }
    (∃ index, loaded.buildIndex.outcome = .ok index) ∧
      loaded.answerAfter [getStructure] get = .ok (.text "feed") ∧
      autoloadable.answerAfter [] get = .ok (.text "feed") ∧
      loaded.answerAfter [] getStructure = .ok (.object "C") ∧
      loaded.answerAfter [get] (.ofIndex .structureNames) = .ok ["N\\C"] ∧
      (partly.withFlags safeModes.loaded).buildIndex.outcome =
        .error (.scan (.symbol (.notLoaded "N\\C"))) := by
  intro get getStructure loaded autoloadable partly
  have hbuilt : ∃ index, loaded.buildIndex.outcome = .ok index := exists_ok_of_isOk (by cbv)
  obtain ⟨-, -, -, hloaded⟩ := resolution_modes registeredFile safeModes
  obtain ⟨hget, -, -⟩ := hloaded hbuilt [] [getStructure] []
  obtain ⟨-, hstructure, -⟩ := hloaded hbuilt [] [] []
  obtain ⟨-, -, hhides⟩ := hloaded hbuilt [] [get] []
  let unresolved := registeredFile.withFlags safeModes.unresolved
  have hf : unresolved.answerAfter [] get = .ok (.text "N\\f") := by cbv
  have hc : unresolved.answerAfter [] getStructure = .ok (.text "N\\C") := by cbv
  have hnames : unresolved.answerAfter [] (.ofIndex .structureNames) = .ok ["N\\C"] := by cbv
  have hfunction : registeredFile.handle? .functionKind "N\\f" = some (.text "feed") := by decide
  have htype : ∀ kind ∈ DeclarationKind.structures,
      registeredFile.handle? kind "N\\C" = some (.object "C") := by decide
  obtain ⟨hauto, ⟨fault, hfault, -⟩ | ⟨key, handle, hhandle, hnamed, hbound⟩⟩ :=
    hget .functionKind (by decide) "f"
  · cases hf.symm.trans hfault
  cases hf.symm.trans hnamed
  cases hfunction.symm.trans hhandle
  obtain ⟨-, kind, hkind, ⟨fault, hfault, -⟩ | ⟨key, handle, hhandle, hnamed, hboundC⟩⟩ :=
    hstructure "C"
  · cases hc.symm.trans hfault
  cases hc.symm.trans hnamed
  cases (htype kind hkind).symm.trans hhandle
  refine ⟨hbuilt, hbound, hauto.trans hbound, hboundC,
    (hhides (.ofIndex .structureNames) trivial).trans hnames, ?_⟩
  obtain ⟨-, hpartly, -⟩ := resolution_modes partly safeModes
  obtain ⟨index, hindex⟩ : ∃ index,
      (partly.withFlags safeModes.unresolved).buildIndex.outcome = .ok index :=
    exists_ok_of_isOk (by cbv)
  have hdeclared : scopedKinds.map index.names = [["N\\f"], [], [], ["N\\C"]] :=
    read_of_eq_ok (fun index => scopedKinds.map index.names) hindex (by cbv)
  simp only [scopedKinds, List.map_cons, List.map_nil, List.cons.injEq, and_true] at hdeclared
  obtain ⟨hfunctions, hinterfaces, htraits, hclasses⟩ := hdeclared
  obtain ⟨kind, hkind, name, hname, hnone, houtcome⟩ := hpartly index hindex fun hregistered => by
    have h := hregistered .classKind (by decide) "N\\C" (by rw [hclasses]; decide)
    exact absurd h (by decide)
  have hunbound : name = "N\\C" := by
    simp only [scopedKinds, List.mem_cons, List.not_mem_nil, or_false] at hkind
    rcases hkind with rfl | rfl | rfl | rfl
    · rw [hfunctions, List.mem_singleton] at hname
      subst hname
      exact absurd hnone (by decide)
    · rw [hinterfaces] at hname
      cases hname
    · rw [htraits] at hname
      cases hname
    · rw [hclasses] at hname
      exact List.mem_singleton.mp hname
  rw [hunbound] at houtcome
  exact houtcome

end Reflection
