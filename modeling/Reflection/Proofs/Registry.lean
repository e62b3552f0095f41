import Mathlib.Data.List.Nodup
import Reflection.Proofs.Name
import Reflection.Proofs.Table
import Reflection.SourceFile

/-!
# Files of registered symbols

Types and functions are registered in tables of their own, but there is one table of files for both, and
a registration without a file leaves in it what was there. So a handle that was not replaced keeps its
name, but not always its file.

## Main definitions

* `Registration`, `SymbolRegistry.register`: one registration.
* `Registration.lastPath?`: the last file that was given under a name.

## Main statements

* `SymbolRegistry.mem_symbols_of_nameOf?`: the name of a handle is one under which it stands.
* `SymbolRegistry.nameOf?_of_current`: a handle that was not replaced keeps its name.
* `SymbolRegistry.find?_files_foldl_register`: the last file that was given under a name is its file.
* `SymbolRegistry.file?_of_current`: when a handle that was not replaced keeps its file.
-/
namespace Reflection

/-- A registration of a function, or of a class, interface or trait, perhaps with the file that declares
it. -/
structure Registration where
  isFunction : Bool
  name : String
  handle : Handle
  file : Option String
  deriving DecidableEq

namespace Registration

/-- Name under which the symbol is registered. -/
def key (g : Registration) : String := Name.fold g.name

/-- Text of the file that is given. -/
def path? (g : Registration) : Option String := g.file.map Path.normal

/-- The last file that is given under a name, for a symbol of either kind. -/
def lastPath? (gs : List Registration) (key : String) : Option String :=
  gs.reverse.findSome? fun g => if g.key = key then g.path? else none

theorem lastPath?_append (gs gs' : List Registration) (key : String) :
    lastPath? (gs ++ gs') key = (lastPath? gs' key).or (lastPath? gs key) := by
  rw [lastPath?, List.reverse_append, List.findSome?_append]
  rfl

theorem lastPath?_singleton (g : Registration) (key : String) :
    lastPath? [g] key = if g.key = key then g.path? else none := by
  rw [lastPath?, List.reverse_singleton, List.findSome?_singleton]

end Registration

namespace SymbolRegistry

/-- The registry after a registration. -/
def register (r : SymbolRegistry) (g : Registration) : SymbolRegistry :=
  if g.isFunction then r.addFunction g.name g.handle g.file else r.addType g.name g.handle g.file

/-- The handles of one kind by name. -/
def symbols (r : SymbolRegistry) (isFunction : Bool) : Table String Handle :=
  if isFunction then r.functions else r.types

variable {r : SymbolRegistry} {g : Registration} {gs before after : List Registration}
  {isFunction : Bool} {key : String} {handle : Handle}

/-! ## One registration -/

theorem symbols_register (r : SymbolRegistry) (g : Registration) (isFunction : Bool) :
    (r.register g).symbols isFunction =
      if g.isFunction = isFunction then Table.insert (r.symbols isFunction) g.key g.handle
      else r.symbols isFunction := by
  unfold register
  cases g.isFunction <;> cases isFunction <;> rfl

theorem find?_files_register (r : SymbolRegistry) (g : Registration) (key : String) :
    Table.find? (r.register g).files key =
      (if g.key = key then g.path? else none).or (Table.find? r.files key) := by
  have hfiles : (r.register g).files = recordFile r.files g.name g.file := by
    unfold register
    cases g.isFunction <;> rfl
  rw [hfiles, Registration.path?, Registration.key]
  cases g.file with
  | none => simp [recordFile]
  | some path =>
    rw [recordFile, Table.find?_insert]
    split_ifs <;> rfl

/-! ## Several registrations -/

/-- After several registrations the file under a name is the last one that was given for it. -/
theorem find?_files_foldl_register (r : SymbolRegistry) (gs : List Registration) (key : String) :
    Table.find? (gs.foldl register r).files key =
      (Registration.lastPath? gs key).or (Table.find? r.files key) := by
  induction gs generalizing r with
  | nil => rfl
  | cons g rest ih =>
    rw [List.foldl_cons, ih, find?_files_register, ← List.singleton_append,
      Registration.lastPath?_append, Registration.lastPath?_singleton, Option.or_assoc]

/-- A handle in a table was there before, or comes from a registration. -/
theorem mem_symbols_foldl_register
    (h : (key, handle) ∈ (gs.foldl register r).symbols isFunction) :
    (key, handle) ∈ r.symbols isFunction ∨ ∃ g ∈ gs, g.key = key ∧ g.handle = handle := by
  induction gs generalizing r with
  | nil => exact .inl h
  | cons g rest ih =>
    rcases ih h with hbefore | ⟨g', hg', hsame⟩
    · rw [symbols_register] at hbefore
      split_ifs at hbefore
      · rcases Table.mem_insert hbefore with heq | hold
        · obtain ⟨hkey, hhandle⟩ := Prod.mk.inj heq
          exact .inr ⟨g, List.mem_cons_self, hkey.symm, hhandle.symm⟩
        · exact .inl hold
      · exact .inl hbefore
    · exact .inr ⟨g', List.mem_cons_of_mem g hg', hsame⟩

/-- Registrations of another kind or under other names leave the handle of a name as it is. -/
theorem find?_symbols_foldl_register
    (h : ∀ g ∈ gs, g.isFunction = isFunction → g.key ≠ key) :
    Table.find? ((gs.foldl register r).symbols isFunction) key =
      Table.find? (r.symbols isFunction) key := by
  induction gs generalizing r with
  | nil => rfl
  | cons g rest ih =>
    obtain ⟨hg, hrest⟩ := List.forall_mem_cons.mp h
    rw [List.foldl_cons, ih hrest, symbols_register]
    split_ifs with hkind
    · rw [Table.find?_insert, if_neg (hg hkind)]
    · rfl

/-! ## Names of handles -/

/-- A handle has no name just where it stands in no table. -/
theorem nameOf?_eq_none_iff_not_mem :
    r.nameOf? handle = none ↔ ∀ isFunction key, (key, handle) ∉ r.symbols isFunction := by
  rw [nameOf?, Option.map_eq_none_iff, List.find?_eq_none]
  constructor
  · intro hnone isFunction key hmem
    have hentry : (key, handle) ∈ r.types ++ r.functions := by
      cases isFunction
      · exact List.mem_append_left r.functions hmem
      · exact List.mem_append_right r.types hmem
    simpa using hnone _ hentry
  · rintro hnone ⟨key, value⟩ hmem hvalue
    obtain rfl : value = handle := by simpa using hvalue
    rcases List.mem_append.mp hmem with htype | hfunction
    · exact hnone false key htype
    · exact hnone true key hfunction

/-- The name of a handle is one under which it stands, as a function only where it stands under none as
a type. -/
theorem mem_symbols_of_nameOf? (h : r.nameOf? handle = some key) :
    (key, handle) ∈ r.symbols false ∨
      (key, handle) ∈ r.symbols true ∧ ∀ key', (key', handle) ∉ r.symbols false := by
  obtain ⟨⟨key, value⟩, hfind, rfl⟩ := Option.map_eq_some_iff.mp h
  obtain rfl : value = handle := by simpa using List.find?_some hfind
  rw [List.find?_append, Option.or_eq_some_iff] at hfind
  rcases hfind with htype | ⟨hnone, hfunction⟩
  · exact .inl (List.mem_of_find?_eq_some htype)
  · refine .inr ⟨List.mem_of_find?_eq_some hfunction, fun key' hmem => ?_⟩
    simpa using List.find?_eq_none.mp hnone _ hmem

/-- A handle that stands under one name only is found under this name. -/
theorem nameOf?_eq (hmem : (key, handle) ∈ r.symbols isFunction)
    (hone : ∀ isFunction key', (key', handle) ∈ r.symbols isFunction → key' = key) :
    r.nameOf? handle = some key := by
  cases hname : r.nameOf? handle with
  | none => exact absurd hmem (nameOf?_eq_none_iff_not_mem.mp hname isFunction key)
  | some key' =>
    rcases mem_symbols_of_nameOf? hname with htype | ⟨hfunction, -⟩
    · rw [hone false key' htype]
    · rw [hone true key' hfunction]

/-! ## Handles that were not replaced -/

/-- A handle that was not replaced keeps its name. -/
theorem nameOf?_of_current (hnodup : ((before ++ g :: after).map Registration.handle).Nodup)
    (hcurrent : ∀ h ∈ after, h.isFunction = g.isFunction → h.key ≠ g.key) :
    ((before ++ g :: after).foldl register {}).nameOf? g.handle = some g.key := by
  have hmem : (g.key, g.handle) ∈
      ((before ++ g :: after).foldl register {}).symbols g.isFunction := by
    refine Table.mem_of_find? ?_
    rw [List.foldl_append, List.foldl_cons, find?_symbols_foldl_register hcurrent,
      symbols_register, if_pos rfl, Table.find?_insert, if_pos rfl]
  refine nameOf?_eq hmem fun isFunction key hkey => ?_
  rcases mem_symbols_foldl_register hkey with hnil | ⟨g', hg', hname, hhandle⟩
  · cases isFunction <;> cases hnil
  · -- No two registrations have the same handle.
    have hg : g ∈ before ++ g :: after := by simp
    rw [← hname, List.inj_on_of_nodup_map hnodup hg' hg hhandle]

/-- After registrations with different handles, a handle that no later one of its kind replaced is
registered under its name. The file under this name, which is the one that is opened for the handle, is
the last one that was given for either kind: one that came later, or else that of the handle, or else one
that came before. So it is that of the handle just where no other one came later under the name, and none
came before if the registration of the handle gave none. -/
theorem file?_of_current (hnodup : ((before ++ g :: after).map Registration.handle).Nodup)
    (hcurrent : ∀ h ∈ after, h.isFunction = g.isFunction → h.key ≠ g.key) :
    let r := (before ++ g :: after).foldl register {}
    let path? := ((Registration.lastPath? after g.key).or g.path?).or
      (Registration.lastPath? before g.key)
    r.nameOf? g.handle = some g.key ∧ r.file? g.key = path? ∧
      (path? = g.path? ↔
        (∀ path, Registration.lastPath? after g.key = some path → g.path? = some path) ∧
          (g.path? = none → Registration.lastPath? before g.key = none)) ∧
      ∀ settings files tokenize flags,
        (path? = none → SourceFile.ofHandle settings files g.handle tokenize flags r =
          .error (.noSource (SourceFile.quotedHandle g.handle))) ∧
        ∀ path, path? = some path → SourceFile.ofHandle settings files g.handle tokenize flags r =
          SourceFile.ofPath settings files path tokenize (flags.union .loaded) (some r) := by
  intro r path?
  have hname : r.nameOf? g.handle = some g.key := nameOf?_of_current hnodup hcurrent
  have hfile : r.file? g.key = path? := by
    have hfold : Name.fold g.key = g.key := Name.fold_fold g.name
    rw [file?, hfold, find?_files_foldl_register, ← List.singleton_append,
      Registration.lastPath?_append, Registration.lastPath?_append,
      Registration.lastPath?_singleton, if_pos rfl]
    exact Option.or_none
  refine ⟨hname, hfile, ?_, fun settings files tokenize flags => ?_⟩
  · cases hlater : Registration.lastPath? after g.key with
    | none => cases hown : g.path? <;> simp [path?, hlater, hown]
    | some path => cases hown : g.path? <;> simp [path?, hlater, eq_comm]
  · constructor
    · intro hnone
      rw [SourceFile.ofHandle, hname, Option.bind_some, hfile, hnone]
    · intro path hpath
      rw [SourceFile.ofHandle, hname, Option.bind_some, hfile, hpath]

/-- A type `A` and a function `A` of different files. The handle of the type keeps its name, but the file
of the function is opened for it. -/
theorem file?_of_current_homonyms :
    let type : Registration := ⟨false, "A", .object "h1", some "a.php"⟩
    let function : Registration := ⟨true, "A", .object "h2", some "b.php"⟩
    let r := [type, function].foldl register {}
    ([type, function].map Registration.handle).Nodup ∧
      (∀ h ∈ [function], h.isFunction = type.isFunction → h.key ≠ type.key) ∧
      r.nameOf? type.handle = some "a" ∧ r.file? "a" = some "b.php" ∧
      type.path? = some "a.php" := by
  intro type function r
  have hnodup : ([] ++ type :: [function]).map Registration.handle |>.Nodup := by decide
  have hcurrent : ∀ h ∈ [function], h.isFunction = type.isFunction → h.key ≠ type.key := by
    intro h hmem
    rw [List.mem_singleton.mp hmem]
    exact fun hkind => Bool.noConfusion hkind
  obtain ⟨hname, hfile, -, -⟩ := file?_of_current hnodup hcurrent
  have hkey : type.key = "a" := by decide +kernel
  rw [hkey] at hname hfile
  exact ⟨hnodup, hcurrent, hname, hfile.trans (by decide +kernel), by decide +kernel⟩

end SymbolRegistry
end Reflection
