import Mathlib.Tactic.SplitIfs
import Reflection.Proofs.Scope.Step
import Reflection.Proofs.Token

/-!
# Pairs of braces

Every opening brace looks for its partner on its own: it passes the tokens behind it, counts the blocks
that open inside of its own one, and finds the closing brace at which none of them is left. So what is
known of the braces of a stream grows with every token, and the pairs of a stream are those with matching
braces in between.

## Main definitions

* `BracesMatch`: tokens whose braces are balanced.
* `Partner`, `Partner.pass`: what an opening brace knows of its partner.
* `braces`, `bracePairs`: the opening braces of a stream, and those that have a partner.

## Main statements

* `braces_append`: the braces of two stretches.
* `mem_bracePairs_iff`: a pair is an opening and a closing brace with matching braces in between.
* `bracePairs_nested`: a pair ends before a later one begins, or surrounds it.
* `exists_waits_of_isOpenAt`, `exists_isOpenAt_of_waits`: the pairs that are open after some tokens are the
  braces that wait for their partners there.
-/
namespace Reflection

open Token

/-! ## Balance -/

/-- Number of opening braces. -/
def openings (ts : List Token) : Nat := ts.countP (·.isPunct "\x7b")

/-- Number of closing braces. -/
def closings (ts : List Token) : Nat := ts.countP (·.isPunct "\x7d")

/-- Tokens with as many closing braces as opening ones, and nowhere more of them so far. -/
structure BracesMatch (ts : List Token) : Prop where
  leading : ∀ front, front <+: ts → closings front ≤ openings front
  total : closings ts = openings ts

section

variable {t : Token} {ts : List Token}

theorem openings_cons (t : Token) (ts : List Token) :
    openings (t :: ts) = openings ts + if t.isPunct "\x7b" then 1 else 0 :=
  List.countP_cons

theorem closings_cons (t : Token) (ts : List Token) :
    closings (t :: ts) = closings ts + if t.isPunct "\x7d" then 1 else 0 :=
  List.countP_cons

theorem openings_append (xs ys : List Token) : openings (xs ++ ys) = openings xs + openings ys :=
  List.countP_append

theorem closings_append (xs ys : List Token) : closings (xs ++ ys) = closings xs + closings ys :=
  List.countP_append

theorem not_closing_of_opening (h : t.isPunct "\x7b" = true) : t.isPunct "\x7d" = false := by
  rw [isPunct_of_isPunct h]
  rfl

theorem not_opening_of_closing (h : t.isPunct "\x7d" = true) : t.isPunct "\x7b" = false := by
  rw [isPunct_of_isPunct h]
  rfl

/-- One more opening brace. -/
theorem counts_opening (h : t.isPunct "\x7b" = true) (ts : List Token) :
    openings (ts ++ [t]) = openings ts + 1 ∧ closings (ts ++ [t]) = closings ts := by
  rw [openings_append, closings_append, openings_cons, closings_cons, if_pos h, not_closing_of_opening h]
  exact ⟨rfl, rfl⟩

/-- One more closing brace. -/
theorem counts_closing (h : t.isPunct "\x7d" = true) (ts : List Token) :
    openings (ts ++ [t]) = openings ts ∧ closings (ts ++ [t]) = closings ts + 1 := by
  rw [openings_append, closings_append, openings_cons, closings_cons, if_pos h, not_opening_of_closing h]
  exact ⟨rfl, rfl⟩

theorem counts_other (hopening : t.isPunct "\x7b" = false) (hclosing : t.isPunct "\x7d" = false)
    (ts : List Token) : openings (ts ++ [t]) = openings ts ∧ closings (ts ++ [t]) = closings ts := by
  rw [openings_append, closings_append, openings_cons, closings_cons, hopening, hclosing]
  exact ⟨rfl, rfl⟩

/-- A token is an opening brace, a closing one, or none. -/
theorem brace_cases (t : Token) : t.isPunct "\x7b" = true ∧ t.isPunct "\x7d" = false ∨
    t.isPunct "\x7b" = false ∧ t.isPunct "\x7d" = true ∨
    t.isPunct "\x7b" = false ∧ t.isPunct "\x7d" = false := by
  cases hopening : t.isPunct "\x7b" with
  | true => exact .inl ⟨rfl, not_closing_of_opening hopening⟩
  | false => cases t.isPunct "\x7d" <;> simp

end

/-- Positions grow along numbered tokens. -/
theorem Numbered.lt_of_mem {first : Int} {xs ys : List Token} (h : Numbered first (xs ++ ys)) {t u : Token}
    (ht : t ∈ xs) (hu : u ∈ ys) : t.index < u.index := by
  obtain ⟨hxs, hys⟩ := (numbered_append first xs ys).mp h
  have hindex := hxs.index_mem ht
  have hindex' := hys.index_mem hu
  omega

/-! ## Partners -/

/-- What an opening brace knows of its partner: it waits for it, a number of blocks being open inside of
its own one, or it has found it. -/
inductive Partner
  | waits (inside : Nat)
  | found (closing : Token)
  deriving DecidableEq, Repr

namespace Partner

/-- What an opening brace knows after one more token. -/
def pass : Partner → Token → Partner
  | found c, _ => found c
  | waits inside, t =>
    if t.isPunct "\x7b" then waits (inside + 1)
    else if t.isPunct "\x7d" then
      match inside with
      | 0 => found t
      | n + 1 => waits n
    else waits inside

/-- The partner, if it was found. -/
def found? : Partner → Option Token
  | found c => some c
  | waits _ => none

variable {t c : Token} {ts : List Token} {k i : Nat}

theorem pass_opening (h : t.isPunct "\x7b" = true) : (waits k).pass t = waits (k + 1) := if_pos h

theorem pass_closing (h : t.isPunct "\x7d" = true) :
    (waits 0).pass t = found t ∧ (waits (k + 1)).pass t = waits k := by
  simp [pass, not_opening_of_closing h, h]

theorem pass_other (hopening : t.isPunct "\x7b" = false) (hclosing : t.isPunct "\x7d" = false)
    (p : Partner) : p.pass t = p := by
  cases p <;> simp [pass, hopening, hclosing]

theorem pass_eq_found_iff : (waits k).pass t = found c ↔ t.isPunct "\x7d" = true ∧ k = 0 ∧ t = c := by
  obtain ⟨hopening, hclosing⟩ | ⟨hopening, hclosing⟩ | ⟨hopening, hclosing⟩ := brace_cases t
  · simp [pass_opening hopening, hclosing]
  · cases k with
    | zero => simp [(pass_closing hclosing (k := 0)).1, hclosing]
    | succ k => simp [(pass_closing hclosing).2]
  · simp [pass_other hopening hclosing, hclosing]

theorem foldl_pass_found (c : Token) (ts : List Token) : ts.foldl pass (found c) = found c := by
  induction ts with
  | nil => rfl
  | cons t rest ih => exact ih

/-- A brace goes on waiting as long as no more blocks close than are open, its own one left out. -/
theorem foldl_pass_eq_waits_iff : ts.foldl pass (waits k) = waits i ↔
    (∀ front, front <+: ts → closings front ≤ k + openings front) ∧
      i + closings ts = k + openings ts := by
  induction ts generalizing k with
  | nil =>
    have hnil : closings [] = 0 ∧ openings [] = 0 := ⟨rfl, rfl⟩
    simp only [List.foldl_nil, waits.injEq, List.prefix_nil, forall_eq, hnil]
    omega
  | cons t rest ih =>
    have hfronts (P : List Token → Prop) : (∀ front, front <+: t :: rest → P front) ↔
        P [] ∧ ∀ front, front <+: rest → P (t :: front) := by
      refine ⟨fun h => ⟨h [] List.nil_prefix, fun front hfront =>
        h _ (List.cons_prefix_cons.mpr ⟨rfl, hfront⟩)⟩, fun ⟨hnil, hcons⟩ front hfront => ?_⟩
      rcases List.prefix_cons_iff.mp hfront with rfl | ⟨left, rfl, hleft⟩
      · exact hnil
      · exact hcons left hleft
    have hnil : closings [] ≤ k + openings [] := Nat.zero_le _
    simp only [hfronts, hnil, true_and, List.foldl_cons, openings_cons, closings_cons]
    obtain ⟨hopening, hclosing⟩ | ⟨hopening, hclosing⟩ | ⟨hopening, hclosing⟩ := brace_cases t
    · rw [pass_opening hopening, ih]
      simp only [hopening, hclosing, if_true, Bool.false_eq_true, if_false, Nat.add_zero]
      grind
    · cases k with
      | zero =>
        -- The brace has found its partner, so it does not wait.
        rw [(pass_closing hclosing (k := 0)).1, foldl_pass_found]
        simp only [hopening, hclosing, if_true, Bool.false_eq_true, if_false, reduceCtorEq, false_iff]
        rintro ⟨hleading, -⟩
        exact absurd (hleading [] List.nil_prefix) (by decide)
      | succ k =>
        rw [(pass_closing hclosing).2, ih]
        simp only [hopening, hclosing, if_true, Bool.false_eq_true, if_false, Nat.add_zero]
        grind
    · rw [pass_other hopening hclosing, ih]
      simp only [hopening, hclosing, Bool.false_eq_true, if_false, Nat.add_zero]

/-- Matching braces leave what a brace knows as it is, as long as it waits. -/
theorem foldl_pass_of_match (h : BracesMatch ts) (k : Nat) : ts.foldl pass (waits k) = waits k := by
  refine foldl_pass_eq_waits_iff.mpr ⟨fun front hfront => ?_, by rw [h.total]⟩
  exact Nat.le_trans (h.leading front hfront) (Nat.le_add_left ..)

/-- The partner of a brace is the first closing brace at which no other one waits inside. -/
theorem foldl_pass_eq_found_iff : ts.foldl pass (waits k) = found c ↔
    ∃ inner after, ts = inner ++ c :: after ∧ c.isPunct "\x7d" = true ∧
      inner.foldl pass (waits k) = waits 0 := by
  constructor
  · intro h
    induction ts generalizing k with
    | nil => cases h
    | cons t rest ih =>
      rw [List.foldl_cons] at h
      cases hpass : (waits k).pass t with
      | found d =>
        rw [hpass, foldl_pass_found] at h
        cases h
        obtain ⟨hclosing, rfl, rfl⟩ := pass_eq_found_iff.mp hpass
        exact ⟨[], rest, rfl, hclosing, rfl⟩
      | waits k' =>
        rw [hpass] at h
        obtain ⟨inner, after, rfl, hclosing, hinner⟩ := ih h
        refine ⟨t :: inner, after, rfl, hclosing, ?_⟩
        rw [List.foldl_cons, hpass, hinner]
  · rintro ⟨inner, after, rfl, hclosing, hinner⟩
    rw [List.foldl_append, hinner, List.foldl_cons, (pass_closing hclosing (k := 0)).1, foldl_pass_found]

theorem mem_of_foldl_pass (h : ts.foldl pass (waits k) = found c) : c ∈ ts := by
  obtain ⟨inner, after, rfl, -⟩ := foldl_pass_eq_found_iff.mp h
  exact List.mem_append_right _ (List.mem_cons_self ..)

end Partner

/-- What an opening brace knows of its partner from the tokens behind it. -/
def partner (ts : List Token) : Partner := ts.foldl Partner.pass (.waits 0)

/-- A brace still waits for its partner alone behind matching braces, and behind no other tokens. -/
theorem partner_eq_waits_iff {ts : List Token} : partner ts = .waits 0 ↔ BracesMatch ts := by
  rw [partner, Partner.foldl_pass_eq_waits_iff]
  simp only [Nat.zero_add]
  exact ⟨fun h => ⟨h.1, h.2⟩, fun h => ⟨h.leading, h.total⟩⟩

instance (ts : List Token) : Decidable (BracesMatch ts) := decidable_of_iff _ partner_eq_waits_iff

theorem partner_eq_found_iff {ts : List Token} {c : Token} : partner ts = .found c ↔
    ∃ inner after, ts = inner ++ c :: after ∧ c.isPunct "\x7d" = true ∧ BracesMatch inner := by
  rw [partner, Partner.foldl_pass_eq_found_iff]
  simp only [← partner_eq_waits_iff, partner]

/-! ## Braces of a stream -/

/-- The opening braces of some tokens, each with what it knows of its partner from the tokens behind it. -/
def braces : List Token → List (Token × Partner)
  | [] => []
  | t :: rest => if t.isPunct "\x7b" then (t, partner rest) :: braces rest else braces rest

/-- The pairs of braces in some tokens, in the order of their opening braces. -/
def bracePairs (ts : List Token) : List (Token × Token) :=
  (braces ts).filterMap fun b => b.2.found?.map (b.1, ·)

/-- A pair of braces is strictly around another one. -/
def Surrounds (p q : Token × Token) : Prop := p.1.index < q.1.index ∧ q.2.index < p.2.index

instance (p q : Token × Token) : Decidable (Surrounds p q) := inferInstanceAs (Decidable (_ ∧ _))

/-- After the token at a position, a pair of braces has been opened and not yet closed. -/
def IsOpenAt (p : Token × Token) (index : Int) : Prop := p.1.index ≤ index ∧ index < p.2.index

/-- The braces of two stretches: those of the first one go on to look for their partners. -/
theorem braces_append (xs ys : List Token) : braces (xs ++ ys) =
    (braces xs).map (fun b => (b.1, ys.foldl Partner.pass b.2)) ++ braces ys := by
  induction xs with
  | nil => rfl
  | cons t rest ih =>
    rw [List.cons_append, braces, braces]
    split_ifs
    · rw [ih, partner, List.foldl_append]
      rfl
    · exact ih

/-- One more opening brace waits for its partner. -/
theorem braces_concat_opening {t : Token} (h : t.isPunct "\x7b" = true) (ts : List Token) :
    braces (ts ++ [t]) = (braces ts).map (fun b => (b.1, b.2.pass t)) ++ [(t, .waits 0)] := by
  rw [braces_append, braces, if_pos h]
  rfl

theorem braces_concat {t : Token} (h : t.isPunct "\x7b" = false) (ts : List Token) :
    braces (ts ++ [t]) = (braces ts).map fun b => (b.1, b.2.pass t) := by
  rw [braces_append, braces, h]
  exact List.append_nil _

theorem mem_braces_iff {ts : List Token} {o : Token} {p : Partner} : (o, p) ∈ braces ts ↔
    ∃ before after, ts = before ++ o :: after ∧ o.isPunct "\x7b" = true ∧ p = partner after := by
  constructor
  · intro h
    induction ts with
    | nil => cases h
    | cons t rest ih =>
      have hrest (h : (o, p) ∈ braces rest) : ∃ before after, t :: rest = before ++ o :: after ∧
          o.isPunct "\x7b" = true ∧ p = partner after := by
        obtain ⟨before, after, rfl, hopening, hp⟩ := ih h
        exact ⟨t :: before, after, rfl, hopening, hp⟩
      rw [braces] at h
      split_ifs at h with hopening
      · rcases List.mem_cons.mp h with heq | h
        · cases heq
          exact ⟨[], rest, rfl, hopening, rfl⟩
        · exact hrest h
      · exact hrest h
  · rintro ⟨before, after, rfl, hopening, rfl⟩
    rw [braces_append, braces, if_pos hopening]
    exact List.mem_append_right _ (List.mem_cons_self ..)

theorem mem_bracePairs_iff_braces {ts : List Token} {o c : Token} :
    (o, c) ∈ bracePairs ts ↔ (o, .found c) ∈ braces ts := by
  simp only [bracePairs, List.mem_filterMap, Option.map_eq_some_iff, Prod.exists, Prod.mk.injEq]
  constructor
  · rintro ⟨o', p, hmem, c', hfound, rfl, rfl⟩
    cases p with
    | waits inside => cases hfound
    | found c' =>
      cases hfound
      exact hmem
  · intro hmem
    exact ⟨o, .found c, hmem, c, rfl, rfl, rfl⟩

/-- A pair is an opening and a closing brace of the stream with matching braces in between. -/
theorem mem_bracePairs_iff {ts : List Token} {o c : Token} : (o, c) ∈ bracePairs ts ↔
    ∃ before inner after, ts = before ++ o :: (inner ++ c :: after) ∧
      o.isPunct "\x7b" = true ∧ c.isPunct "\x7d" = true ∧ BracesMatch inner := by
  rw [mem_bracePairs_iff_braces, mem_braces_iff]
  constructor
  · rintro ⟨before, rest, rfl, hopening, hfound⟩
    obtain ⟨inner, after, rfl, hclosing, hinner⟩ := partner_eq_found_iff.mp hfound.symm
    exact ⟨before, inner, after, rfl, hopening, hclosing, hinner⟩
  · rintro ⟨before, inner, after, rfl, hopening, hclosing, hinner⟩
    exact ⟨before, _, rfl, hopening, (partner_eq_found_iff.mpr ⟨inner, after, rfl, hclosing, hinner⟩).symm⟩

/-- Where the braces match, every opening one finds its partner. -/
theorem BracesMatch.exists_found {ts : List Token} (h : BracesMatch ts) {o : Token} {p : Partner}
    (hmem : (o, p) ∈ braces ts) : ∃ c, p = .found c := by
  obtain ⟨before, after, rfl, hopening, rfl⟩ := mem_braces_iff.mp hmem
  cases hpartner : partner after with
  | found c => exact ⟨c, rfl⟩
  | waits k =>
    have hbefore : closings before ≤ openings before := h.leading before (List.prefix_append _ _)
    have hafter := (Partner.foldl_pass_eq_waits_iff.mp hpartner).2
    have htotal := h.total
    rw [openings_append, closings_append, openings_cons, closings_cons, if_pos hopening,
      not_closing_of_opening hopening] at htotal
    simp only [Bool.false_eq_true, if_false] at htotal
    omega

theorem mem_of_mem_braces {ts : List Token} {o : Token} {p : Partner} (h : (o, p) ∈ braces ts) :
    o ∈ ts := by
  obtain ⟨before, after, rfl, -⟩ := mem_braces_iff.mp h
  exact List.mem_append_right _ (List.mem_cons_self ..)

theorem mem_of_mem_bracePairs {ts : List Token} {o c : Token} (h : (o, c) ∈ bracePairs ts) :
    o ∈ ts ∧ c ∈ ts := by
  obtain ⟨before, inner, after, rfl, -⟩ := mem_bracePairs_iff.mp h
  simp

section

variable {first : Int} {ts : List Token} (h : Numbered first ts)

include h

/-- A pair opens before it closes. -/
theorem lt_of_mem_bracePairs {o c : Token} (hpair : (o, c) ∈ bracePairs ts) : o.index < c.index := by
  obtain ⟨before, inner, after, rfl, -⟩ := mem_bracePairs_iff.mp hpair
  rw [List.append_cons] at h
  exact h.lt_of_mem (List.mem_append_right _ (List.mem_singleton_self o)) (by simp)

/-- Where a brace stands, one brace stands. -/
theorem eq_of_mem_braces {o o' : Token} {p p' : Partner} (ho : (o, p) ∈ braces ts)
    (ho' : (o', p') ∈ braces ts) (hindex : o.index = o'.index) : o = o' ∧ p = p' := by
  obtain ⟨before, after, rfl, -, rfl⟩ := mem_braces_iff.mp ho
  obtain ⟨before', after', hsplit, -, rfl⟩ := mem_braces_iff.mp ho'
  have hlength : before.length = before'.length := by
    have hplace := ((numbered_append first before (o :: after)).mp h).2.1
    rw [hsplit] at h
    have hplace' := ((numbered_append first before' (o' :: after')).mp h).2.1
    omega
  obtain ⟨-, heq⟩ := List.append_inj hsplit hlength
  obtain ⟨rfl, rfl⟩ := List.cons.inj heq
  exact ⟨rfl, rfl⟩

/-- A pair ends before a later one begins, or it surrounds it. -/
theorem bracePairs_nested {p q : Token × Token} (hp : p ∈ bracePairs ts) (hq : q ∈ bracePairs ts)
    (hlt : p.1.index < q.1.index) : p.2.index < q.1.index ∨ Surrounds p q := by
  obtain ⟨before, inner, after, rfl, hopening, hclosing, hinner⟩ := mem_bracePairs_iff.mp hq
  have hp' := mem_bracePairs_iff_braces.mp hp
  rw [braces_append] at hp'
  rcases List.mem_append.mp hp' with hp' | hp'
  · obtain ⟨⟨o, known⟩, hknown, heq⟩ := List.mem_map.mp hp'
    obtain ⟨rfl, hfound⟩ := Prod.mk.inj heq
    cases known with
    | found d =>
      -- The former pair has ended already.
      rw [Partner.foldl_pass_found] at hfound
      cases hfound
      exact .inl (h.lt_of_mem (mem_of_mem_bracePairs (mem_bracePairs_iff_braces.mpr hknown)).2
        (List.mem_cons_self ..))
    | waits k =>
      -- The former pair waits for the later one to end, and then for its own partner.
      rw [List.foldl_cons, Partner.pass_opening hopening, List.foldl_append,
        Partner.foldl_pass_of_match hinner, List.foldl_cons, (Partner.pass_closing hclosing).2] at hfound
      have hmem := Partner.mem_of_foldl_pass hfound
      have hsplit : before ++ q.1 :: (inner ++ q.2 :: after) =
          (before ++ q.1 :: (inner ++ [q.2])) ++ after := by simp
      rw [hsplit] at h
      exact .inr ⟨hlt, h.lt_of_mem (by simp) hmem⟩
  · -- The former pair cannot open behind the later one.
    have hmem := mem_of_mem_braces hp'
    have hbehind := ((numbered_append _ _ _).mp h).2.index_mem hmem
    have hplace := ((numbered_append _ _ _).mp h).2.1
    omega

variable {xs ys : List Token} {index : Int}

/-- Of two pairs that are open at once, the one that opens first surrounds the other one. -/
theorem eq_or_surrounds_of_isOpenAt {p q : Token × Token} (hp : p ∈ bracePairs ts) (hq : q ∈ bracePairs ts)
    (hp' : IsOpenAt p index) (hq' : IsOpenAt q index) (hle : q.1.index ≤ p.1.index) :
    q = p ∨ Surrounds q p := by
  by_cases hindex : q.1.index = p.1.index
  · obtain ⟨hopening, hclosing⟩ := eq_of_mem_braces h (mem_bracePairs_iff_braces.mp hq)
      (mem_bracePairs_iff_braces.mp hp) hindex
    exact .inl (Prod.ext hopening (Partner.found.inj hclosing))
  · have hbefore : q.1.index < p.1.index := by omega
    rcases bracePairs_nested h hq hp hbefore with hended | hsurrounds
    · have hbegun := hp'.1
      have hwaiting := hq'.2
      omega
    · exact .inr hsurrounds

omit h in
/-- After some tokens, the pairs that are open are the opening braces that wait. -/
theorem exists_waits_of_isOpenAt (hxs : ∀ t ∈ xs, t.index ≤ index) (hys : ∀ t ∈ ys, index < t.index)
    {p : Token × Token} (hp : p ∈ bracePairs (xs ++ ys)) (hopen : IsOpenAt p index) :
    ∃ k, (p.1, .waits k) ∈ braces xs := by
  have hp' := mem_bracePairs_iff_braces.mp hp
  rw [braces_append] at hp'
  rcases List.mem_append.mp hp' with hp' | hp'
  · obtain ⟨⟨o, known⟩, hknown, heq⟩ := List.mem_map.mp hp'
    obtain ⟨rfl, hfound⟩ := Prod.mk.inj heq
    cases known with
    | waits k => exact ⟨k, hknown⟩
    | found d =>
      rw [Partner.foldl_pass_found] at hfound
      cases hfound
      have hmem := (mem_of_mem_bracePairs (mem_bracePairs_iff_braces.mpr hknown)).2
      have hclosed := hxs _ hmem
      have hwaiting := hopen.2
      omega
  · have hbehind := hys _ (mem_of_mem_braces hp')
    have hbefore := hopen.1
    omega

omit h in
theorem exists_isOpenAt_of_waits (hmatch : BracesMatch (xs ++ ys)) (hxs : ∀ t ∈ xs, t.index ≤ index)
    (hys : ∀ t ∈ ys, index < t.index) {o : Token} {k : Nat} (ho : (o, .waits k) ∈ braces xs) :
    ∃ c, (o, c) ∈ bracePairs (xs ++ ys) ∧ IsOpenAt (o, c) index := by
  have hmem : (o, ys.foldl Partner.pass (.waits k)) ∈ braces (xs ++ ys) := by
    rw [braces_append]
    exact List.mem_append_left _ (List.mem_map_of_mem ho)
  obtain ⟨c, hfound⟩ := hmatch.exists_found hmem
  rw [hfound] at hmem
  exact ⟨c, mem_bracePairs_iff_braces.mpr hmem, hxs o (mem_of_mem_braces ho),
    hys c (Partner.mem_of_foldl_pass hfound)⟩

end

end Reflection
