import Reflection.Proofs.Declaration.Redefinition

/-!
# What functions and structures stand for

The functions and structures of a stream may stand for their names, or for what they are bound to.
Nothing that is filed before them refers to this, so two scans that differ in it alone file the same
declarations, and differ in how they end only where a name is not bound.

## Main definitions

* `ScanOptions.named`: the options of a scan in which symbols stand for their names.

## Main statements

* `outcome_scan_redefine`: two scans that differ in what symbols stand for.
* `outcome_scan_named`: where symbols can be bound, they can be named.
* `outcome_scan_of_named`, `exists_unbound_of_scan`: symbols that are named can be bound unless one of
  them is not bound.
-/
namespace Reflection

open Token

variable {options : ScanOptions} {tokens : List Token} {index : DeclarationIndex}

/-- The options for a scan in which functions and structures stand for their names. -/
def ScanOptions.named (options : ScanOptions) : ScanOptions :=
  { options with define := fun _ name => .ok (.text name) }

namespace Definition

/-- What a name stands for where functions and structures stand for their names. -/
def asName (kind : DeclarationKind) (name : String) (v : Definition) : Definition :=
  if kind ∈ scopedKinds then .text name else v

/-- What a name stands for where functions and structures stand for what they are bound to. -/
def asBound (define : DeclarationKind → String → Except SymbolFault Definition)
    (kind : DeclarationKind) (name : String) (v : Definition) : Definition :=
  if kind ∈ scopedKinds then (define kind name).toOption.getD v else v

variable {kind : DeclarationKind}

theorem asName_of_notMem (hkind : kind ∉ scopedKinds) (name : String) (v : Definition) :
    asName kind name v = v :=
  if_neg hkind

theorem asBound_of_notMem {define : DeclarationKind → String → Except SymbolFault Definition}
    (hkind : kind ∉ scopedKinds) (name : String) (v : Definition) :
    asBound define kind name v = v :=
  if_neg hkind

end Definition

namespace Listing

variable {l : Listing}

/-- A symbol stands for what it is bound to. -/
theorem outcome_define_eq_ok_iff (h : l.meaning = .symbol) {v : Definition} :
    (l.define options index).outcome = .ok v ↔
      options.define l.declaration.kind l.declaration.name = .ok v := by
  rw [define, h, Report.ofExcept]
  cases options.define l.declaration.kind l.declaration.name <;> simp [Except.mapError]

theorem outcome_define_eq_error_iff (h : l.meaning = .symbol) {fault : ScanFault} :
    (l.define options index).outcome = .error fault ↔ ∃ cause,
      options.define l.declaration.kind l.declaration.name = .error cause ∧
        fault = .symbol cause := by
  rw [define, h, Report.ofExcept]
  cases options.define l.declaration.kind l.declaration.name <;> simp [Except.mapError, eq_comm]

end Listing

/-! ## Names of a scan -/

/-- The names of an index are those that the stream declares. -/
theorem mem_names_scan_iff (h : (scan options tokens).outcome = .ok index) {kind : DeclarationKind}
    {name : String} :
    name ∈ index.names kind ↔ ∃ l ∈ streamListings tokens, l.key = (kind, name) := by
  rw [outcome_scan_of_completed h options] at h
  rw [DeclarationIndex.mem_names_iff, keys_fileAll h, List.mem_eraseDups, List.mem_map]

theorem mem_names_of_mem_streamListings (h : (scan options tokens).outcome = .ok index)
    {l : Listing} (hl : l ∈ streamListings tokens) :
    l.declaration.name ∈ index.names l.declaration.kind :=
  (mem_names_scan_iff h).mpr ⟨l, hl, rfl⟩

/-- The names of functions and structures are those of their scopes. -/
theorem mem_names_scopedKinds_iff (h : (scan options tokens).outcome = .ok index) {kind : DeclarationKind}
    (hkind : kind ∈ scopedKinds) {name : String} :
    name ∈ index.names kind ↔ (kind, name) ∈ (symbolListings tokens).map Listing.key := by
  rw [mem_names_scan_iff h, List.mem_map]
  refine ⟨fun ⟨l, hl, hkey⟩ => ?_, fun ⟨l, hl, hkey⟩ => ⟨l, List.mem_append_right _ hl, hkey⟩⟩
  rcases List.mem_append.mp hl with hfile | hsymbol
  · obtain ⟨hsorted, hmeaning⟩ := wellSorted_fileListings l hfile
    rw [← (Prod.mk.inj hkey).1] at hkind
    exact absurd (hsorted.meaning_eq_symbol_iff.mpr hkind) hmeaning
  · exact ⟨l, hsymbol, hkey⟩

/-- In a scan that completes every function and structure is defined. -/
theorem exists_define_of_scan (h : (scan options tokens).outcome = .ok index)
    {kind : DeclarationKind} (hkind : kind ∈ scopedKinds) {name : String}
    (hname : name ∈ index.names kind) : ∃ v, options.define kind name = .ok v := by
  obtain ⟨l, hl, hkey⟩ := (mem_names_scan_iff h).mp hname
  obtain ⟨rfl, rfl⟩ := Prod.mk.inj hkey
  have hmeaning := (wellSorted_streamListings l hl).meaning_eq_symbol_iff.mpr hkind
  rw [outcome_scan_of_completed h options, fileAll, Report.outcome_foldlM] at h
  obtain ⟨before, after, hstep⟩ := exists_step_of_foldlM h l hl
  rw [Report.outcome_bind] at hstep
  obtain ⟨v, hdefine, -⟩ := exists_ok_of_bind hstep
  exact ⟨v, (Listing.outcome_define_eq_ok_iff hmeaning).mp hdefine⟩

/-! ## Two scans -/

/-- The definition of a name that is not a symbol depends on the constants alone that are known. -/
theorem define_of_meaning_ne (options options' : ScanOptions)
    (heval : options'.evaluates = options.evaluates) (hroom : options'.room = options.room)
    {index' : DeclarationIndex}
    (hconstant : index'.constant? = index.constant?) {l : Listing} (hmeaning : l.meaning ≠ .symbol) :
    l.define options' index' = l.define options index := by
  have hlookup (space : String) : constantsIn space index' = constantsIn space index := by
    funext name
    simp only [constantsIn, hconstant]
  unfold Listing.define
  cases h : l.meaning with
  | text s => rfl
  | constant space d => simp only [constantOf, constantValue, heval, hroom, hlookup]
  | symbol => exact absurd h hmeaning

/-- Of two scans that differ in what symbols stand for, one gives the index of the other with its
symbols changed, if every symbol that the other one defines has its changed definition in it. -/
theorem outcome_scan_redefine (options options' : ScanOptions)
    (heval : options'.evaluates = options.evaluates) (hroom : options'.room = options.room)
    {g : DeclarationKind → String → Definition → Definition}
    (hg : ∀ kind ∉ scopedKinds, ∀ name v, g kind name v = v)
    (h : (scan options tokens).outcome = .ok index)
    (hdefine : ∀ kind ∈ scopedKinds, ∀ name ∈ index.names kind, ∀ v,
      options.define kind name = .ok v → options'.define kind name = .ok (g kind name v)) :
    (scan options' tokens).outcome = .ok (index.redefine g) := by
  have hdeclared := fun l (hl : l ∈ streamListings tokens) => mem_names_of_mem_streamListings h hl
  rw [outcome_scan_of_completed h options']
  rw [outcome_scan_of_completed h options] at h
  refine fileAll_redefine (fun l hl before v hv => ?_) h
  have hsymbol := (wellSorted_streamListings l hl).meaning_eq_symbol_iff
  by_cases hmeaning : l.meaning = .symbol
  · rw [Listing.outcome_define_eq_ok_iff hmeaning] at hv ⊢
    exact hdefine _ (hsymbol.mp hmeaning) _ (hdeclared l hl) v hv
  · have hconstant : (before.redefine g).constant? = before.constant? :=
      DeclarationIndex.constant?_redefine (hg .constKind (by decide))
    rw [define_of_meaning_ne options options' heval hroom hconstant hmeaning, hv,
      hg _ (mt hsymbol.mpr hmeaning)]

/-- Where a scan completes, it does so with the names of functions and structures as well. -/
theorem outcome_scan_named (h : (scan options tokens).outcome = .ok index) :
    (scan options.named tokens).outcome = .ok (index.redefine Definition.asName) := by
  refine outcome_scan_redefine options options.named rfl rfl
    (fun kind => Definition.asName_of_notMem) h ?_
  intro kind hkind name _ v _
  rw [Definition.asName, if_pos hkind]
  rfl

/-- Where a scan with the names of functions and structures completes and all of them are bound, a
scan with what they are bound to completes. -/
theorem outcome_scan_of_named (h : (scan options.named tokens).outcome = .ok index)
    (hbound : ∀ kind ∈ scopedKinds, ∀ name ∈ index.names kind,
      ∃ v, options.define kind name = .ok v) :
    (scan options tokens).outcome =
      .ok (index.redefine (Definition.asBound options.define)) := by
  refine outcome_scan_redefine options.named options rfl rfl
    (fun kind => Definition.asBound_of_notMem) h ?_
  intro kind hkind name hname _ _
  obtain ⟨v, hv⟩ := hbound kind hkind name hname
  rw [Definition.asBound, if_pos hkind, hv]
  rfl

/-- Where a scan with the names of functions and structures completes and one with what they are bound
to does not, it ends at a declared name that is not bound. -/
theorem exists_unbound_of_scan (h : (scan options.named tokens).outcome = .ok index)
    {fault : ScanFault} (hfault : (scan options tokens).outcome = .error fault) :
    ∃ kind ∈ scopedKinds, ∃ name ∈ index.names kind, ∃ cause,
      options.define kind name = .error cause ∧ fault = .symbol cause := by
  have hdeclared := fun l (hl : l ∈ streamListings tokens) => mem_names_of_mem_streamListings h hl
  rw [outcome_scan_of_completed h options, streamListings, fileAll_append, Report.outcome_bind]
    at hfault
  rw [outcome_scan_of_completed h options.named, streamListings, fileAll_append,
    Report.outcome_bind] at h
  -- Whatever is filed before the symbols is filed alike.
  have hsame : fileAll options {} (fileListings tokens) =
      fileAll options.named {} (fileListings tokens) := by
    refine foldlM_congr_mem (fun l hl index => ?_) _
    have hdefine : l.define options index = l.define options.named index :=
      define_of_meaning_ne options.named options rfl rfl rfl
        (wellSorted_fileListings l hl).2
    rw [hdefine]
  obtain ⟨middle, hmiddle, -⟩ := exists_ok_of_bind h
  rw [hsame, bind_of_eq_ok hmiddle, fileAll, Report.outcome_foldlM] at hfault
  obtain ⟨l, hl, before, hstep⟩ := exists_error_of_foldlM hfault
  obtain ⟨hsorted, hmeaning⟩ := wellSorted_symbolListings l hl
  refine ⟨_, hsorted.meaning_eq_symbol_iff.mp hmeaning, _,
    hdeclared l (List.mem_append_right _ hl), ?_⟩
  -- To add what is defined cannot fail.
  rw [Report.outcome_bind] at hstep
  cases hdefine : (l.define options before).outcome with
  | ok v =>
    rw [hdefine] at hstep
    cases hstep
  | error cause =>
    rw [hdefine] at hstep
    cases hstep
    exact (Listing.outcome_define_eq_error_iff hmeaning).mp hdefine

end Reflection
