import Mathlib.Tactic.SplitIfs
import Reflection.Proofs.Declaration.Filing
import Reflection.Proofs.Inspection.Query

/-!
# Queries and their history

What an inspection keeps is what it would compute again, so a query is answered as if it were the first
one. The constants of structures are kept by name, though an interface, a trait and a class may share a
name: the kind is not needed, since every way to such a name leads to the first kind that has it.

## Main definitions

* `SourceFile.structureAt?`: the structure that a key stands for.
* `Inspection.Coherent`: what is kept is what the file gives.

## Main statements

* `SourceFile.structureAt?_of_structureDeclaration`: the key of a structure stands for that structure.
* `Inspection.Coherent.ask`: a query keeps an inspection coherent and is answered from the file.
* `ask_after`: answers do not depend on history.
-/
namespace Reflection

variable {f : SourceFile} {index : DeclarationIndex} {kind other : DeclarationKind}
  {name key : String}

/-! ## Ways to a key -/

namespace DeclarationIndex

/-- A name that leads to a key under one kind leads somewhere under every kind that has the key. -/
theorem isSome_lookup?_of_contains (h : index.lookup? kind name = some key)
    (hother : index.contains other key = true) : (index.lookup? other name).isSome := by
  unfold lookup? at h ⊢
  split_ifs at h with hname hqualified
  · cases h
    rw [if_pos hother]
    rfl
  · rw [if_neg hqualified]
    split_ifs
    · rfl
    · rw [List.find?_isSome]
      exact ⟨key, List.mem_of_find?_eq_some h, hother⟩

end DeclarationIndex

namespace SourceFile

/-- A name that leads to a key, perhaps as an alias, leads somewhere under every kind that has the
key. -/
theorem isSome_find?_of_contains (h : find? index kind name = some key)
    (hother : index.contains other key = true) : (find? index other name).isSome := by
  unfold find? at h ⊢
  cases hlocal : index.lookup? other (Name.relative name) with
  | some _ => rfl
  | none =>
    cases hkind : index.lookup? kind (Name.relative name) with
    | some key' =>
      rw [hkind] at h
      cases h
      have hsome := DeclarationIndex.isSome_lookup?_of_contains hkind hother
      rw [hlocal] at hsome
      cases hsome
    | none =>
      rw [hkind] at h
      obtain ⟨imported, himported, hlookup⟩ := Option.bind_eq_some_iff.mp h
      simp only [himported, Option.bind_some]
      exact DeclarationIndex.isSome_lookup?_of_contains hlookup hother

/-- The structure that a key stands for: that of the first kind of structures that has the key. -/
def structureAt? (index : DeclarationIndex) (key : String) : Option Declaration :=
  DeclarationKind.structures.findSome? (index.declaration? · key)

/-- The parts of the way from a name to the declaration of a structure. -/
theorem exists_of_structureDeclaration {d : Declaration}
    (h : structureDeclaration name index = .ok d) :
    ∃ kind key, structureKind? name index = some kind ∧ find? index kind name = some key ∧
      index.declaration? kind key = some d := by
  obtain ⟨kind, hkind, h⟩ := exists_ok_of_bind h
  obtain ⟨key, hkey, h⟩ := exists_ok_of_bind h
  refine ⟨kind, key, ?_, ?_, ?_⟩
  · unfold getStructureKind at hkind
    split at hkind <;> cases hkind
    assumption
  · unfold getKey at hkey
    split at hkey <;> cases hkey
    assumption
  · split at h <;> cases h
    assumption

/-- The key of a structure that a name refers to stands for that structure: a kind before its own one
does not have the key, or the name would lead there. -/
theorem structureAt?_of_structureDeclaration {d : Declaration} (hkeyed : index.Keyed)
    (h : structureDeclaration name index = .ok d) : structureAt? index d.name = some d := by
  obtain ⟨kind, key, hkind, hkey, hd⟩ := exists_of_structureDeclaration h
  obtain ⟨-, before, after, hsplit, hbefore⟩ := List.find?_eq_some_iff_append.mp hkind
  rw [(hkeyed kind key d hd).2]
  refine List.findSome?_eq_some_iff.mpr ⟨before, kind, after, hsplit, hd, fun other hother => ?_⟩
  have hnot : (find? index other name).isSome = false := by simpa [has] using hbefore other hother
  cases hcontains : index.contains other key with
  | true =>
    rw [isSome_find?_of_contains hkey hcontains] at hnot
    cases hnot
  | false =>
    rwa [DeclarationIndex.contains_eq_isSome, Option.isSome_eq_false_iff,
      Option.isNone_iff_eq_none] at hcontains

end SourceFile

/-- The index of a file is keyed. -/
theorem keyed_buildIndex (h : f.buildIndex.outcome = .ok index) : index.Keyed := by
  simp only [SourceFile.buildIndex, Report.outcome_bind] at h
  obtain ⟨tokens, -, h⟩ := exists_ok_of_bind h
  cases hscan : (scan f.scanOptions tokens).outcome with
  | ok found =>
    rw [Report.mapError, hscan] at h
    cases h
    exact keyed_scan hscan
  | error fault =>
    rw [Report.mapError, hscan] at h
    cases h

/-! ## Coherence -/

namespace Inspection

open SourceFile

/-- What an inspection keeps is what its file gives: the index, and under the keys of structures the
constants of these structures. -/
structure Coherent (f : SourceFile) (i : Inspection) : Prop where
  file : i.file = f
  index : ∀ index, i.index = some index → f.buildIndex.outcome = .ok index
  structures : ∀ key constants, Table.find? i.structures key = some constants →
    ∃ index d, f.buildIndex.outcome = .ok index ∧ structureAt? index key = some d ∧
      (f.readStructure d.scope).outcome = .ok constants

theorem coherent_start (f : SourceFile) : Coherent f (start f) where
  file := rfl
  index _ h := nomatch h
  structures _ _ h := nomatch h

variable {i : Inspection}

/-- The index is the one that the file gives, whether it is there or has to be built. -/
theorem Coherent.indexed (h : Coherent f i) :
    Coherent f i.indexed.1 ∧ i.indexed.2.outcome = f.buildIndex.outcome := by
  unfold Inspection.indexed
  cases hindex : i.index with
  | some index => exact ⟨h, (h.index index hindex).symm⟩
  | none =>
    refine ⟨⟨h.file, fun index hbuilt => ?_, h.structures⟩, by rw [h.file]⟩
    rw [← h.file]
    dsimp only at hbuilt
    cases houtcome : i.file.buildIndex.outcome with
    | ok built =>
      rw [houtcome] at hbuilt
      cases hbuilt
      rfl
    | error fault =>
      rw [houtcome] at hbuilt
      cases hbuilt

/-- A query to the index is answered from the index that the file gives. -/
theorem Coherent.query {α : Type} (h : Coherent f i)
    (answer : DeclarationIndex → Except SourceFault α) :
    Coherent f (i.query answer).1 ∧
      (i.query answer).2.outcome = f.buildIndex.outcome >>= answer := by
  obtain ⟨hcoherent, houtcome⟩ := h.indexed
  refine ⟨hcoherent, ?_⟩
  show (i.indexed.2 >>= fun index => Report.ofExcept (answer index)).outcome = _
  rw [Report.outcome_bind, houtcome]
  rfl

/-- The constants of a structure are those in its scope, whether they are there or have to be read. -/
theorem Coherent.readOnce {d : Declaration} (h : Coherent f i)
    (hindex : f.buildIndex.outcome = .ok index) (hd : structureAt? index d.name = some d) :
    Coherent f (i.readOnce d).1 ∧
      (i.readOnce d).2.outcome = (f.readStructure d.scope).outcome := by
  unfold Inspection.readOnce
  cases hkept : Table.find? i.structures d.name with
  | some constants =>
    obtain ⟨index', d', hindex', hd', hread⟩ := h.structures d.name constants hkept
    cases hindex.symm.trans hindex'
    cases hd.symm.trans hd'
    exact ⟨h, hread.symm⟩
  | none =>
    dsimp only
    cases hread : (i.file.readStructure d.scope).outcome with
    | error fault => exact ⟨h, by rw [← h.file, hread]⟩
    | ok constants =>
      refine ⟨⟨h.file, h.index, fun key constants' hfound => ?_⟩, by rw [← h.file, hread]⟩
      rw [Table.find?_insert] at hfound
      split_ifs at hfound with hkey
      · cases hfound
        rw [← hkey, ← h.file]
        exact ⟨index, d, h.file ▸ hindex, hd, hread⟩
      · exact h.structures key constants' hfound

theorem Coherent.structureConstants (h : Coherent f i) (name : String) :
    Coherent f (i.structureConstants name).1 ∧
      (i.structureConstants name).2.outcome = f.structureConstants name := by
  obtain ⟨hcoherent, houtcome⟩ := h.query (structureDeclaration name)
  have hspec : f.structureConstants name =
      (i.query (structureDeclaration name)).2.outcome >>= fun d =>
        (f.readStructure d.scope).outcome := by
    rw [houtcome, SourceFile.structureConstants, bind_assoc]
  rw [hspec]
  unfold Inspection.structureConstants
  dsimp only
  cases hfound : (i.query (structureDeclaration name)).2.outcome with
  | error fault => exact ⟨hcoherent, rfl⟩
  | ok d =>
    rw [houtcome] at hfound
    obtain ⟨index, hindex, hd⟩ := exists_ok_of_bind hfound
    have hkey := structureAt?_of_structureDeclaration (keyed_buildIndex hindex) hd
    obtain ⟨hread, hconstants⟩ := hcoherent.readOnce hindex hkey
    refine ⟨hread, ?_⟩
    rw [Report.outcome_bind, houtcome, hfound]
    exact hconstants

/-- A query keeps an inspection coherent, and its answer is the one that the file gives. -/
theorem Coherent.ask (h : Coherent f i) (q : Query) :
    Coherent f (q.ask i).1 ∧ (q.ask i).2.outcome = f.answer q := by
  cases q with
  | ofIndex q =>
    obtain ⟨hcoherent, houtcome⟩ := h.query (q.answer i.file)
    exact ⟨hcoherent, houtcome.trans (by rw [h.file]; rfl)⟩
  | structureConstants name => exact h.structureConstants name
  | structureConstant owner name =>
    obtain ⟨hcoherent, houtcome⟩ := h.structureConstants owner
    refine ⟨hcoherent, ?_⟩
    show (Inspection.structureConstant i owner name).2.outcome = _
    unfold Inspection.structureConstant SourceFile.answer
    rw [Report.outcome_bind, houtcome]
    congr 1
    funext constants
    cases Table.find? constants name <;> rfl

/-- Queries keep an inspection coherent. -/
theorem Coherent.after (h : Coherent f i) (queries : List Query) : Coherent f (i.after queries) := by
  induction queries generalizing i with
  | nil => exact h
  | cons q rest ih => exact ih (h.ask q).1

end Inspection

open Inspection SourceFile

/-- Answers do not depend on history. After any queries to a file, whether these succeeded or failed, a
query gives what it gives as the first one: the answer that is computed from the file alone. In
particular, the constants that are given for the name of a structure are those in the scope of the
structure of the first kind that the name refers to, although they are kept without that kind. -/
theorem ask_after (f : SourceFile) (history : List Query) (q : Query) :
    (q.ask ((start f).after history)).2.outcome = (q.ask (start f)).2.outcome ∧
      (q.ask ((start f).after history)).2.outcome = f.answer q ∧
      ∀ name constants,
        (((start f).after history).structureConstants name).2.outcome = .ok constants →
          ∃ index kind key d, f.buildIndex.outcome = .ok index ∧
            structureKind? name index = some kind ∧ find? index kind name = some key ∧
            index.declaration? kind key = some d ∧
            (f.readStructure d.scope).outcome = .ok constants := by
  have hfirst := ((coherent_start f).ask q).2
  have hlater := ((coherent_start f).after history).ask q
  refine ⟨hlater.2.trans hfirst.symm, hlater.2, fun name constants h => ?_⟩
  rw [(((coherent_start f).after history).structureConstants name).2] at h
  obtain ⟨index, hindex, h⟩ := exists_ok_of_bind h
  obtain ⟨d, hd, hread⟩ := exists_ok_of_bind h
  obtain ⟨kind, key, hkind, hkey, hdeclaration⟩ := exists_of_structureDeclaration hd
  exact ⟨index, kind, key, d, hindex, hkind, hkey, hdeclaration, hread⟩

end Reflection
