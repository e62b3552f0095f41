import Mathlib.Data.List.Nodup
import Reflection.Class.Cache
import Reflection.Class.Import
import Reflection.Field.Listing
import Reflection.Instance
import Reflection.Proofs.Table

/-!
# Requests to the cache of classes

The cache is asked for classes, for the parents of classes that it was asked for before, and to forget
what it has. Classes whose names are the same but for letter case share an entry, so to ask for one of
them displaces another one, also where the one that is asked for is only met on the way from parent to
parent. The answer is always the class that was asked for, and as long as nothing displaces its entry it
is the same entry again.

## Main definitions

* `CacheTarget`, `CacheRequest`: what the cache is asked for.
* `CacheStep`, `CacheRequest.steps`: the steps that a request consists of.
* `ClassCache.run`, `ClassCache.answer`: the cache after requests, and what a request is answered with.
* `ClassCache.Kept`: what holds of the entries after any requests.
* `ClassCache.Holds`, `ClassCache.Gone`: what becomes of an entry.

## Main statements

* `ClassCache.kept_run`: the entries after any requests.
* `ClassCache.Holds.number_eq_iff`: when later steps leave an entry. Otherwise it is gone for ever.
* `ClassCache.run_exact`: answers are for the class that was asked for, and when they come again.
-/
namespace Reflection

open Reflection.Text

/-- What a class is asked for by: the class itself, one of its objects, or a dotted name. -/
inductive CacheTarget
  | type (c : ClassId)
  | object (o : Instance)
  | name (dotted : String)

/-- The class that is asked for. -/
def CacheTarget.class? (t : ClassTable) : CacheTarget → Except ImportFault ClassId
  | type c => .ok c
  | object o => .ok o.type
  | name dotted => t.importClass dotted

/-- A request to the cache. The parent and the ancestors are asked for by an entry of a class, which
may have been displaced since it was handed out. -/
inductive CacheRequest
  | get (target : CacheTarget)
  | parent (c : ClassId)
  | ancestors (c : ClassId)
  | clear

/-- The classes that the cache is asked for, one after the other. -/
def CacheRequest.classes (t : ClassTable) : CacheRequest → List ClassId
  | get target => (target.class? t).toOption.toList
  | parent c => (t.parent? c).toList
  | ancestors c => t.ancestors c
  | clear => []

/-- A step of a request: the cache is asked for a class, or it forgets what it has. -/
inductive CacheStep
  | visit (c : ClassId)
  | clear

/-- The steps that a request consists of. -/
def CacheRequest.steps (t : ClassTable) : CacheRequest → List CacheStep
  | clear => [.clear]
  | r => (r.classes t).map .visit

/-- The step displaces the entry of a class: it clears the cache, or asks it for another class of the
same name. -/
def CacheStep.Displaces (t : ClassTable) (c : ClassId) : CacheStep → Prop
  | visit d => t.cacheKey d = t.cacheKey c ∧ d ≠ c
  | clear => True

namespace ClassCache

/-- The cache after a step. -/
def step (t : ClassTable) (cache : ClassCache) : CacheStep → ClassCache
  | .visit c => cache.visit t c
  | .clear => cache.clear

/-- The cache after a request. -/
def serve (t : ClassTable) (cache : ClassCache) (r : CacheRequest) : ClassCache :=
  (r.steps t).foldl (step t) cache

/-- The cache after requests, one after the other. -/
def run (t : ClassTable) (rs : List CacheRequest) : ClassCache := rs.foldl (serve t) {}

/-- The entries that are handed out for classes, one after the other: each is the one that stands
under the name of the class then. -/
def answers (t : ClassTable) : ClassCache → List ClassId → List (ClassId × Nat)
  | _, [] => []
  | cache, c :: rest =>
    (Table.find? (cache.visit t c).entries (t.cacheKey c)).toList ++ answers t (cache.visit t c) rest

/-- The entries that are handed out for a request. -/
def answer (t : ClassTable) (cache : ClassCache) (r : CacheRequest) : List (ClassId × Nat) :=
  cache.answers t (r.classes t)

/-- Number of the entry that a class is answered with: that of its entry, or a new one. -/
def number (t : ClassTable) (cache : ClassCache) (c : ClassId) : Nat :=
  match cache.entry? t c with
  | some n => n
  | none => cache.made

/-- Each entry stands under the name of its class, there is one entry a name, and the numbers are
different ones of those that were given out. -/
structure Kept (t : ClassTable) (cache : ClassCache) : Prop where
  key : ∀ e ∈ cache.entries, e.1 = t.cacheKey e.2.1
  nodup : (Table.keys cache.entries).Nodup
  lt : ∀ e ∈ cache.entries, e.2.2 < cache.made
  inj : ∀ e ∈ cache.entries, ∀ e' ∈ cache.entries, e.2.2 = e'.2.2 → e = e'

/-- The entry of a class has a number. -/
def Holds (t : ClassTable) (cache : ClassCache) (c : ClassId) (n : Nat) : Prop :=
  Table.find? cache.entries (t.cacheKey c) = some (c, n)

/-- A number was given out, and no entry has it any more. -/
structure Gone (cache : ClassCache) (n : Nat) : Prop where
  lt : n < cache.made
  ne : ∀ e ∈ cache.entries, e.2.2 ≠ n

variable {t : ClassTable} {cache : ClassCache} {c d : ClassId} {n : Nat} {s : CacheStep}
  {steps : List CacheStep}

/-! ## One class -/

theorem entry?_eq_some_iff : cache.entry? t c = some n ↔ cache.Holds t c n := by
  unfold entry? Holds
  simp [Option.filter_eq_some_iff]

theorem visit_of_holds (h : cache.Holds t c n) : cache.visit t c = cache := by
  rw [visit, entry?_eq_some_iff.mpr h]

theorem number_of_holds (h : cache.Holds t c n) : cache.number t c = n := by
  rw [number, entry?_eq_some_iff.mpr h]

theorem visit_of_entry?_none (h : cache.entry? t c = none) :
    cache.visit t c =
      ⟨Table.insert cache.entries (t.cacheKey c) (c, cache.made), cache.made + 1⟩ := by
  rw [visit, h]

/-- What stands under the names after a class was asked for. -/
theorem find?_visit (t : ClassTable) (cache : ClassCache) (c : ClassId) (key : String) :
    Table.find? (cache.visit t c).entries key =
      if t.cacheKey c = key then some (c, cache.number t c) else Table.find? cache.entries key := by
  cases hentry : cache.entry? t c with
  | some n =>
    have hholds := entry?_eq_some_iff.mp hentry
    rw [visit_of_holds hholds, number_of_holds hholds]
    split_ifs with hkey
    · exact hkey ▸ hholds
    · rfl
  | none => rw [visit_of_entry?_none hentry, Table.find?_insert, number, hentry]

theorem holds_visit_self (t : ClassTable) (cache : ClassCache) (c : ClassId) :
    (cache.visit t c).Holds t c (cache.number t c) := by
  rw [Holds, find?_visit, if_pos rfl]

theorem answers_cons (t : ClassTable) (cache : ClassCache) (c : ClassId) (cs : List ClassId) :
    cache.answers t (c :: cs) = (c, cache.number t c) :: (cache.visit t c).answers t cs := by
  rw [answers, find?_visit, if_pos rfl]
  rfl

theorem map_fst_answers (t : ClassTable) (cache : ClassCache) (cs : List ClassId) :
    (cache.answers t cs).map Prod.fst = cs := by
  induction cs generalizing cache with
  | nil => rfl
  | cons c rest ih => rw [answers_cons, List.map_cons, ih]

theorem answer_get {target : CacheTarget} (h : target.class? t = .ok c) :
    cache.answer t (.get target) = [(c, cache.number t c)] := by
  rw [answer, CacheRequest.classes, h]
  exact answers_cons t cache c []

theorem serve_get {target : CacheTarget} (h : target.class? t = .ok c) :
    cache.serve t (.get target) = cache.visit t c := by
  rw [serve, CacheRequest.steps, CacheRequest.classes, h]
  · rfl
  · exact CacheRequest.noConfusion

theorem foldl_serve (t : ClassTable) (cache : ClassCache) (rs : List CacheRequest) :
    rs.foldl (serve t) cache = (rs.flatMap (CacheRequest.steps t)).foldl (step t) cache :=
  List.foldl_flatMap.symm

/-! ## Entries after requests -/

theorem kept_empty (t : ClassTable) (made : Nat) : Kept t ⟨[], made⟩ where
  key := nofun
  nodup := List.nodup_nil
  lt := nofun
  inj := nofun

theorem Kept.visit (h : cache.Kept t) (c : ClassId) : (cache.visit t c).Kept t := by
  cases hentry : cache.entry? t c with
  | some n => rwa [visit_of_holds (entry?_eq_some_iff.mp hentry)]
  | none =>
    rw [visit_of_entry?_none hentry]
    exact {
      key := fun e he => by
        rcases Table.mem_insert he with rfl | he
        · rfl
        · exact h.key e he
      nodup := Table.nodup_keys_insert h.nodup _ _
      lt := fun e he => by
        rcases Table.mem_insert he with rfl | he
        · exact Nat.lt_succ_self _
        · exact Nat.lt_succ_of_lt (h.lt e he)
      inj := fun e he e' he' heq => by
        rcases Table.mem_insert he with rfl | he <;> rcases Table.mem_insert he' with rfl | he'
        · rfl
        · exact absurd heq (Nat.ne_of_gt (h.lt e' he'))
        · exact absurd heq (Nat.ne_of_lt (h.lt e he))
        · exact h.inj e he e' he' heq }

theorem Kept.step (h : cache.Kept t) (s : CacheStep) : (cache.step t s).Kept t := by
  cases s with
  | visit c => exact h.visit c
  | clear => exact kept_empty t cache.made

theorem Kept.foldl_step (h : cache.Kept t) (steps : List CacheStep) :
    (steps.foldl (ClassCache.step t) cache).Kept t := by
  induction steps generalizing cache with
  | nil => exact h
  | cons s rest ih => exact ih (h.step s)

/-- The entries after any requests. -/
theorem kept_run (t : ClassTable) (rs : List CacheRequest) : (run t rs).Kept t := by
  rw [run, foldl_serve]
  exact (kept_empty t 0).foldl_step _

/-! ## What becomes of an entry -/

/-- The entry of a class stays where the class itself is asked for, or one of another name. -/
theorem Holds.visit (h : cache.Holds t c n) (hsame : t.cacheKey d = t.cacheKey c → d = c) :
    (cache.visit t d).Holds t c n := by
  by_cases hkey : t.cacheKey d = t.cacheKey c
  · rwa [hsame hkey, visit_of_holds h]
  · rwa [Holds, find?_visit, if_neg hkey]

/-- Another class of the same name displaces the entry. -/
theorem Holds.gone_visit (h : cache.Holds t c n) (hkept : cache.Kept t)
    (hkey : t.cacheKey d = t.cacheKey c) (hne : d ≠ c) : (cache.visit t d).Gone n := by
  have hmem : (t.cacheKey c, c, n) ∈ cache.entries := Table.mem_of_find? h
  have hnone : cache.entry? t d = none := by
    rw [Option.eq_none_iff_forall_ne_some]
    intro m hentry
    have hm : Table.find? cache.entries (t.cacheKey d) = some (d, m) := entry?_eq_some_iff.mp hentry
    rw [hkey, h] at hm
    exact hne (congrArg Prod.fst (Option.some.inj hm)).symm
  have hfind : Table.find? (cache.visit t d).entries (t.cacheKey c) = some (d, cache.made) := by
    rw [find?_visit, if_pos hkey, number, hnone]
  have hkept' := hkept.visit d
  refine ⟨?_, fun e he heq => ?_⟩
  · rw [visit_of_entry?_none hnone]
    exact Nat.lt_succ_of_lt (hkept.lt _ hmem)
  · -- An old entry with the number was that of the class, and its name has the new entry now.
    have hbefore := he
    rw [visit_of_entry?_none hnone] at hbefore
    rcases Table.mem_insert hbefore with rfl | hold
    · exact absurd heq (Nat.ne_of_gt (hkept.lt _ hmem))
    · obtain rfl := hkept.inj e hold _ hmem heq
      have hsame := (Table.find?_of_mem hkept'.nodup he).symm.trans hfind
      exact hne (congrArg Prod.fst (Option.some.inj hsame)).symm

theorem Gone.visit (h : cache.Gone n) (d : ClassId) : (cache.visit t d).Gone n := by
  cases hentry : cache.entry? t d with
  | some m => rwa [visit_of_holds (entry?_eq_some_iff.mp hentry)]
  | none =>
    rw [visit_of_entry?_none hentry]
    refine ⟨Nat.lt_succ_of_lt h.lt, fun e he => ?_⟩
    rcases Table.mem_insert he with rfl | he
    · exact Nat.ne_of_gt h.lt
    · exact h.ne e he

theorem Gone.step (h : cache.Gone n) (s : CacheStep) : (cache.step t s).Gone n := by
  cases s with
  | visit d => exact h.visit d
  | clear => exact ⟨h.lt, nofun⟩

theorem Gone.foldl_step (h : cache.Gone n) (steps : List CacheStep) :
    (steps.foldl (ClassCache.step t) cache).Gone n := by
  induction steps generalizing cache with
  | nil => exact h
  | cons s rest ih => exact ih (h.step s)

/-- A number that is gone is not given out again. -/
theorem Gone.number_ne (h : cache.Gone n) (c : ClassId) : cache.number t c ≠ n := by
  cases hentry : cache.entry? t c with
  | some m =>
    rw [number_of_holds (entry?_eq_some_iff.mp hentry)]
    exact h.ne _ (Table.mem_of_find? (entry?_eq_some_iff.mp hentry))
  | none =>
    rw [number, hentry]
    exact Nat.ne_of_gt h.lt

/-! ## What becomes of an entry by several steps -/

theorem Holds.step (h : cache.Holds t c n) (hs : ¬s.Displaces t c) : (cache.step t s).Holds t c n := by
  cases s with
  | visit d => exact h.visit fun hkey => not_not.mp fun hne => hs ⟨hkey, hne⟩
  | clear => exact absurd trivial hs

theorem Holds.gone_step (h : cache.Holds t c n) (hkept : cache.Kept t) (hs : s.Displaces t c) :
    (cache.step t s).Gone n := by
  cases s with
  | visit d => exact h.gone_visit hkept hs.1 hs.2
  | clear => exact ⟨hkept.lt _ (Table.mem_of_find? h), nofun⟩

theorem Holds.foldl_step (h : cache.Holds t c n) (hsteps : ∀ s ∈ steps, ¬s.Displaces t c) :
    (steps.foldl (ClassCache.step t) cache).Holds t c n := by
  induction steps generalizing cache with
  | nil => exact h
  | cons s rest ih =>
    obtain ⟨hs, hrest⟩ := List.forall_mem_cons.mp hsteps
    exact ih (h.step hs) hrest

theorem Holds.gone_foldl_step (h : cache.Holds t c n) (hkept : cache.Kept t)
    (hsteps : ∃ s ∈ steps, s.Displaces t c) : (steps.foldl (ClassCache.step t) cache).Gone n := by
  induction steps generalizing cache with
  | nil => simp at hsteps
  | cons s rest ih =>
    by_cases hs : s.Displaces t c
    · exact (h.gone_step hkept hs).foldl_step rest
    · obtain ⟨s', hmem, hs'⟩ := hsteps
      have hrest : s' ∈ rest := (List.mem_cons.mp hmem).resolve_left fun heq => hs (heq ▸ hs')
      exact ih (h.step hs) (hkept.step s) ⟨s', hrest, hs'⟩

/-- A class is answered with the same number again just if no step displaced its entry. -/
theorem Holds.number_eq_iff (h : cache.Holds t c n) (hkept : cache.Kept t) :
    (steps.foldl (ClassCache.step t) cache).number t c = n ↔ ∀ s ∈ steps, ¬s.Displaces t c := by
  constructor
  · intro hnumber s hs hdisplaces
    exact (h.gone_foldl_step hkept ⟨s, hs, hdisplaces⟩).number_ne c hnumber
  · exact fun hsteps => number_of_holds (h.foldl_step hsteps)

/-! ## Answers -/

/-- After any requests, whatever is asked for next is answered with entries of just the classes that are
asked for, in order. Each entry stands under the name of its own class in lower case, there is one entry a
name, and different entries have different numbers. What a class is asked for by is answered with one entry
of exactly this class, which stands under its name from then on; and when the class is asked for again
later, the answer is the same entry just if no request in between cleared the cache or asked for another
class of the same name, be it on the way from parent to parent. -/
theorem run_exact (t : ClassTable) (rs : List CacheRequest) :
    (∀ r : CacheRequest, ((run t rs).answer t r).map Prod.fst = r.classes t) ∧
    (∀ e ∈ (run t rs).entries, e.1 = lower (t.fullName e.2.1)) ∧
    (Table.keys (run t rs).entries).Nodup ∧
    (∀ e ∈ (run t rs).entries, ∀ e' ∈ (run t rs).entries, e.2.2 = e'.2.2 → e = e') ∧
    ∀ (target again : CacheTarget) (c : ClassId), target.class? t = .ok c → again.class? t = .ok c →
      ∃ n, (run t rs).answer t (.get target) = [(c, n)] ∧
        Table.find? (run t (rs ++ [.get target])).entries (lower (t.fullName c)) = some (c, n) ∧
        ∀ later : List CacheRequest,
          (run t (rs ++ .get target :: later)).answer t (.get again) = [(c, n)] ↔
            ∀ r ∈ later, ∀ s ∈ r.steps t, ¬s.Displaces t c := by
  have hkept := kept_run t rs
  refine ⟨fun r => map_fst_answers t _ _, hkept.key, hkept.nodup, hkept.inj, ?_⟩
  intro target again c htarget hagain
  have hholds := holds_visit_self t (run t rs) c
  have hrun (later : List CacheRequest) : run t (rs ++ .get target :: later) =
      (later.flatMap (CacheRequest.steps t)).foldl (ClassCache.step t) ((run t rs).visit t c) := by
    rw [run, List.foldl_append, List.foldl_cons, serve_get htarget, run, foldl_serve]
  refine ⟨(run t rs).number t c, answer_get htarget, ?_, fun later => ?_⟩
  · rw [hrun]
    exact hholds
  · rw [answer_get hagain, hrun, List.singleton_inj, Prod.mk.injEq, eq_self, true_and,
      hholds.number_eq_iff (hkept.visit c), List.forall_mem_flatMap]

/-- A class `PET` whose parent is a class `Pet` of the same module. Asked for again by one of its objects,
the class is answered with the same entry. The way to its parent displaces the entry, and then the answer
is another one. -/
theorem run_exact_homonyms :
    let record (id : ClassId) (name : String) (lineage : List ClassId) : ClassRecord :=
      ⟨⟨id, name, "pets", name⟩, [], none, [], lineage, none, true, true⟩
    let t : ClassTable := { classes := [record 0 "Pet" [0], record 1 "PET" [1, 0]] }
    let object : CacheTarget := .object { type := 1 }
    (CacheTarget.type 1).class? t = .ok 1 ∧ object.class? t = .ok 1 ∧
      ∃ n, (run t []).answer t (.get (.type 1)) = [(1, n)] ∧
        (run t [.get (.type 1), .get object]).answer t (.get object) = [(1, n)] ∧
        (run t [.get (.type 1), .parent 1]).answer t (.get object) ≠ [(1, n)] := by
  intro record t object
  obtain ⟨-, -, -, -, hget⟩ := run_exact t []
  obtain ⟨n, hfirst, -, hagain⟩ := hget (.type 1) object 1 rfl rfl
  refine ⟨rfl, rfl, n, hfirst, (hagain [.get object]).mpr ?_, fun hsame => ?_⟩
  · intro r hr s hs hdisplaces
    obtain rfl := List.mem_singleton.mp hr
    obtain rfl := List.mem_singleton.mp hs
    exact hdisplaces.2 rfl
  · have hkey : t.cacheKey 0 = t.cacheKey 1 := by decide +kernel
    exact (hagain [.parent 1]).mp hsame _ List.mem_cons_self (.visit 0) List.mem_cons_self
      ⟨hkey, by decide⟩

end ClassCache
end Reflection
