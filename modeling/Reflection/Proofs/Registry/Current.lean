import Reflection.Proofs.Name.Alike
import Reflection.Proofs.Registry

/-!
# Current symbols

Of the registrations of one kind under one name the last one counts, and it gives the current handle of
this name. The registry keeps types and functions in two tables of folded names. Each of them holds just the
current handles of its kind, whatever was registered for the other kind, and the name that is given for a
handle is one under which it is current.

## Main definitions

* `Registration.Names`: a registration of a kind and under a name.
* `Registration.Current`: the handle that the last registration of a kind gives a name.
* `SymbolRegistry.Answers`: lookups of one kind that answer with the current handles.

## Main statements

* `SymbolRegistry.find?_symbols_eq_some_iff`: a table has the current handles.
* `SymbolRegistry.mem_symbols_iff`: the entries of a table.
* `SymbolRegistry.nameOf?_eq_none_iff`, `SymbolRegistry.current_of_nameOf?`: the name of a handle.
* `SymbolRegistry.answers_current`: a registry after any registrations.
-/
namespace Reflection

namespace Registration

/-- The registration is of a kind and under a name, up to the separators before it and letter case. -/
structure Names (g : Registration) (isFunction : Bool) (name : String) : Prop where
  kind : g.isFunction = isFunction
  alike : Name.Alike g.name name

/-- The last one of the registrations of a kind under a name gives it the handle. -/
def Current (gs : List Registration) (isFunction : Bool) (name : String) (handle : Handle) : Prop :=
  ∃ before g after, gs = before ++ g :: after ∧ g.Names isFunction name ∧ g.handle = handle ∧
    ∀ later ∈ after, ¬ later.Names isFunction name

variable {g : Registration} {isFunction : Bool} {name : String}

theorem Names.key_eq (h : g.Names isFunction name) : g.key = Name.fold name :=
  Name.alike_iff.mp h.alike

theorem key_ne_of_not_names (h : ¬ g.Names isFunction name) (hkind : g.isFunction = isFunction) :
    g.key ≠ Name.fold name :=
  fun hkey => h ⟨hkind, Name.alike_iff.mpr hkey⟩

/-- A name has a current handle unless there is no registration under it. -/
theorem exists_current_or_forall_not (gs : List Registration) (isFunction : Bool) (name : String) :
    (∃ handle, Current gs isFunction name handle) ∨ ∀ g ∈ gs, ¬ g.Names isFunction name := by
  induction gs with
  | nil => exact .inr fun _ hg => nomatch hg
  | cons g rest ih =>
    -- A registration counts only where none of those behind it is under the name.
    rcases ih with ⟨handle, before, last, after, rfl, hlast⟩ | hnone
    · exact .inl ⟨handle, g :: before, last, after, rfl, hlast⟩
    · by_cases hg : g.Names isFunction name
      · exact .inl ⟨g.handle, [], g, rest, rfl, hg, rfl, hnone⟩
      · exact .inr (List.forall_mem_cons.mpr ⟨hg, hnone⟩)

end Registration

namespace SymbolRegistry

open Registration

variable {gs : List Registration} {isFunction : Bool} {name key : String} {handle : Handle}

/-! ## Tables of current handles -/

theorem find?_symbols_of_current (h : Current gs isFunction name handle) :
    Table.find? ((gs.foldl register {}).symbols isFunction) (Name.fold name) = some handle := by
  obtain ⟨before, g, after, rfl, hg, rfl, hafter⟩ := h
  have hlater : ∀ later ∈ after, later.isFunction = isFunction → later.key ≠ Name.fold name :=
    fun later hmem => key_ne_of_not_names (hafter later hmem)
  rw [List.foldl_append, List.foldl_cons, find?_symbols_foldl_register hlater, symbols_register,
    if_pos hg.kind, Table.find?_insert, if_pos hg.key_eq]

theorem find?_symbols_of_not_names (h : ∀ g ∈ gs, ¬ g.Names isFunction name) :
    Table.find? ((gs.foldl register {}).symbols isFunction) (Name.fold name) = none := by
  have hother : ∀ g ∈ gs, g.isFunction = isFunction → g.key ≠ Name.fold name :=
    fun g hmem => key_ne_of_not_names (h g hmem)
  rw [find?_symbols_foldl_register hother]
  cases isFunction <;> rfl

/-- What is found under a name is its current handle. -/
theorem find?_symbols_eq_some_iff :
    Table.find? ((gs.foldl register {}).symbols isFunction) (Name.fold name) = some handle ↔
      Current gs isFunction name handle := by
  refine ⟨fun hfind => ?_, find?_symbols_of_current⟩
  rcases exists_current_or_forall_not gs isFunction name with ⟨current, hcurrent⟩ | hnone
  · rw [find?_symbols_of_current hcurrent] at hfind
    cases hfind
    exact hcurrent
  · rw [find?_symbols_of_not_names hnone] at hfind
    cases hfind

/-- Nothing is found under a name just where there is no registration under it. -/
theorem find?_symbols_eq_none_iff :
    Table.find? ((gs.foldl register {}).symbols isFunction) (Name.fold name) = none ↔
      ∀ g ∈ gs, ¬ g.Names isFunction name := by
  refine ⟨fun hfind => ?_, find?_symbols_of_not_names⟩
  rcases exists_current_or_forall_not gs isFunction name with ⟨current, hcurrent⟩ | hnone
  · rw [find?_symbols_of_current hcurrent] at hfind
    cases hfind
  · exact hnone

theorem nodup_keys_symbols_foldl_register {r : SymbolRegistry}
    (h : (Table.keys (r.symbols isFunction)).Nodup) :
    (Table.keys ((gs.foldl register r).symbols isFunction)).Nodup := by
  induction gs generalizing r with
  | nil => exact h
  | cons g rest ih =>
    refine ih ?_
    rw [symbols_register]
    split_ifs
    · exact Table.nodup_keys_insert h g.key g.handle
    · exact h

/-- The entries of a table are the current handles under folded names. -/
theorem mem_symbols_iff : (key, handle) ∈ (gs.foldl register {}).symbols isFunction ↔
    Name.fold key = key ∧ Current gs isFunction key handle := by
  have hempty : SymbolRegistry.symbols {} isFunction = [] := by cases isFunction <;> rfl
  rw [← find?_symbols_eq_some_iff]
  constructor
  · intro hmem
    have hfold : Name.fold key = key := by
      rcases mem_symbols_foldl_register hmem with hnil | ⟨g, -, hkey, -⟩
      · rw [hempty] at hnil
        cases hnil
      · rw [← hkey]
        exact Name.fold_fold g.name
    have hnodup : (Table.keys ((gs.foldl register {}).symbols isFunction)).Nodup :=
      nodup_keys_symbols_foldl_register (by rw [hempty]; exact List.nodup_nil)
    rw [hfold]
    exact ⟨rfl, Table.find?_of_mem hnodup hmem⟩
  · rintro ⟨hfold, hfind⟩
    rw [hfold] at hfind
    exact Table.mem_of_find? hfind

/-! ## Lookups of one kind -/

/-- Lookups of one kind answer with the current handles, and with a fault where there is none. -/
structure Answers (gs : List Registration) (isFunction : Bool) (has : String → Bool)
    (get : String → Except SymbolFault Handle) : Prop where
  get_eq_ok_iff : ∀ name handle, get name = .ok handle ↔ Current gs isFunction name handle
  get_eq_error_iff : ∀ name fault, get name = .error fault ↔
    fault = .notLoaded name ∧ ∀ g ∈ gs, ¬ g.Names isFunction name
  has_iff : ∀ name, has name = true ↔ ∃ handle, get name = .ok handle

/-- Lookups that read a table of current handles answer with these. -/
theorem answers_of_find? {has : String → Bool} {get : String → Except SymbolFault Handle}
    (hget : ∀ name, get name =
      ((Table.find? ((gs.foldl register {}).symbols isFunction) (Name.fold name)).map Except.ok).getD
        (.error (.notLoaded name)))
    (hhas : ∀ name, has name =
      Table.contains ((gs.foldl register {}).symbols isFunction) (Name.fold name)) :
    Answers gs isFunction has get where
  get_eq_ok_iff name handle := by
    rw [← find?_symbols_eq_some_iff, hget]
    cases Table.find? ((gs.foldl register {}).symbols isFunction) (Name.fold name) <;> simp
  get_eq_error_iff name fault := by
    rw [← find?_symbols_eq_none_iff, hget]
    cases Table.find? ((gs.foldl register {}).symbols isFunction) (Name.fold name) <;>
      simp [eq_comm]
  has_iff name := by
    rw [hhas, hget, Table.contains, Option.isSome_iff_exists]
    cases Table.find? ((gs.foldl register {}).symbols isFunction) (Name.fold name) <;> simp

/-! ## Names of current handles -/

/-- A handle stands in a table just where it is current under some name. -/
theorem exists_mem_symbols_iff :
    (∃ key, (key, handle) ∈ (gs.foldl register {}).symbols isFunction) ↔
      ∃ name, Current gs isFunction name handle := by
  constructor
  · rintro ⟨key, hmem⟩
    exact ⟨key, (mem_symbols_iff.mp hmem).2⟩
  · rintro ⟨name, hcurrent⟩
    refine ⟨Name.fold name, mem_symbols_iff.mpr ⟨Name.fold_fold name, ?_⟩⟩
    rw [← find?_symbols_eq_some_iff, Name.fold_fold, find?_symbols_eq_some_iff]
    exact hcurrent

theorem nameOf?_eq_none_iff : (gs.foldl register {}).nameOf? handle = none ↔
    ∀ isFunction name, ¬ Current gs isFunction name handle := by
  rw [nameOf?_eq_none_iff_not_mem]
  refine forall_congr' fun isFunction => ?_
  rw [← not_exists, exists_mem_symbols_iff, not_exists]

/-- The name of a handle is a folded name under which it is current, that of a type if there is one. -/
theorem current_of_nameOf? (h : (gs.foldl register {}).nameOf? handle = some key) :
    Name.fold key = key ∧ (Current gs false key handle ∨
      Current gs true key handle ∧ ∀ name, ¬ Current gs false name handle) := by
  rcases mem_symbols_of_nameOf? h with htype | ⟨hfunction, hnone⟩
  · obtain ⟨hfold, hcurrent⟩ := mem_symbols_iff.mp htype
    exact ⟨hfold, .inl hcurrent⟩
  · obtain ⟨hfold, hcurrent⟩ := mem_symbols_iff.mp hfunction
    rw [← not_exists, exists_mem_symbols_iff, not_exists] at hnone
    exact ⟨hfold, .inr ⟨hcurrent, hnone⟩⟩

/-! ## A registry after any registrations -/

/-- After any registrations in a new registry, the handle of a type is the one that was last registered for
a type under the name, up to the separators before it and letter case, and there is a fault just where there
was none; functions have handles of their own in the same way. A handle that is current under no name has no
name. The name of any other is a folded name under which it is current, that of a type where it is current as
a type. -/
theorem answers_current (gs : List Registration) :
    let r := gs.foldl register {}
    Answers gs false r.hasType r.getType ∧ Answers gs true r.hasFunction r.getFunction ∧
      ∀ handle,
        (r.nameOf? handle = none ↔ ∀ isFunction name, ¬ Current gs isFunction name handle) ∧
        ∀ key, r.nameOf? handle = some key → Name.fold key = key ∧
          (Current gs false key handle ∨
            Current gs true key handle ∧ ∀ name, ¬ Current gs false name handle) :=
  ⟨answers_of_find? (fun _ => rfl) fun _ => rfl, answers_of_find? (fun _ => rfl) fun _ => rfl,
    fun _ => ⟨nameOf?_eq_none_iff, fun _ => current_of_nameOf?⟩⟩

/-- A handle of a type and a function of the same name, of which the type is then replaced under another
spelling: the name of the handle is that of the function, and the type has the new handle. -/
theorem answers_current_replacedType :
    let gs : List Registration := [⟨false, "Zoo\\Lion", .object "h1", none⟩,
      ⟨true, "\\zoo\\lion", .object "h1", none⟩, ⟨false, "\\\\ZOO\\LION", .object "h2", none⟩]
    let r := gs.foldl register {}
    r.nameOf? (.object "h1") = some "zoo\\lion" ∧ Current gs true "zoo\\lion" (.object "h1") ∧
      (∀ name, ¬ Current gs false name (.object "h1")) ∧
      Current gs false "Zoo\\lion" (.object "h2") := by
  intro gs r
  obtain ⟨htypes, -, hnames⟩ := answers_current gs
  have hname : r.nameOf? (.object "h1") = some "zoo\\lion" := by decide +kernel
  have hreplaced : r.getType "zoo\\lion" = .ok (.object "h2") := by decide +kernel
  have hspelled : r.getType "Zoo\\lion" = .ok (.object "h2") := by decide +kernel
  rcases ((hnames _).2 _ hname).2 with htype | ⟨hfunction, hnone⟩
  · have hkept := (htypes.get_eq_ok_iff _ _).mpr htype
    exact absurd (hreplaced.symm.trans hkept) (by decide)
  · exact ⟨hname, hfunction, hnone, (htypes.get_eq_ok_iff _ _).mp hspelled⟩

end SymbolRegistry
end Reflection
