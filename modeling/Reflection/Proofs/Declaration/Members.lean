import Reflection.Declaration.Scan
import Reflection.Proofs.Program.Passage
import Reflection.Proofs.Scope.Enclosure
import Reflection.Proofs.Scope.Keywords

/-!
# The constants of a structure

The constants of a structure are read in a traversal of its own, which begins at the opening brace and
knows neither what is around the structure nor what owns it. It still is at the brace's own scope just
where the traversal of the whole stream is, whatever functions and structures stand in the body: the
two keep stacks of one depth above the scope of the structure.

## Main definitions

* `memberKeywords`: the keywords `const` that stand directly in a scope.
* `structureEvents`: the traversal in which the constants of a structure are read.
* `Mirrors`: a traversal of a whole stream and the one of a structure in it.

## Main statements

* `Mirrors.step`, `Mirrors.run`: a step keeps the two traversals alike, and so does a run.
* `scanStructureConstants_members`: the constants are read from the keywords that stand directly in
  the scope of the structure.
-/
namespace Reflection

open Token

/-! ## The keywords of constants -/

/-- A position lies strictly between the first and the last one of a scope. -/
def Scope.inside (s : Scope) (index : Int) : Bool := s.first < index && s.last.all (index < ·)

theorem Scope.inside_iff {s : Scope} {last index : Int} (hlast : s.last = some last) :
    s.inside index = true ↔ s.first < index ∧ index < last := by
  simp [Scope.inside, hlast]

/-- The keywords `const` strictly between the ends of a scope that are passed while it is the innermost
open one, in order. -/
def memberKeywords (events : List Event) (s : Scope) : List Token :=
  events.filterMap fun
    | .passed t scope =>
      if t.kind = .constKeyword ∧ s.inside t.index = true ∧ scope = some s.reopen then some t
      else none
    | _ => none

/-- The keywords `const` that are passed while an outermost scope is the innermost open one, in
order. -/
def outermostKeywords (events : List Event) : List Token :=
  events.filterMap fun
    | .passed t scope => if t.kind = .constKeyword ∧ scope.any (·.level == 0) then some t else none
    | _ => none

/-- The events of the traversal in which the constants of a structure are read. -/
def structureEvents (tokens : List Token) (s : Scope) : List Event :=
  match s.last with
  | some last =>
    if s.first < 0 ∨ last < s.first then []
    else
      let range : TokenRange :=
        ⟨TokenRange.clamp tokens.length s.first, TokenRange.clamp tokens.length last⟩
      Traversal.events (range.slice tokens)
  | none => []

/-- Reads the constants of the statement at a keyword `const` into those of a structure. -/
def readMembers (options : ScanOptions) (tokens : List Token) (constants : Table String Constant)
    (t : Token) : Report ScanFault (Table String Constant) :=
  let docComment := docCommentBefore memberModifiers (tokensBefore tokens t)
  addClauses (fun constants d => do
      let c ← constantOf options (constantsOfSelf constants) docComment d
      return Table.insert constants c.name c)
    constants (readConst t.line (lastLine tokens) (tokensAfter tokens t))

theorem memberKeywords_append (xs ys : List Event) (s : Scope) :
    memberKeywords (xs ++ ys) s = memberKeywords xs s ++ memberKeywords ys s :=
  List.filterMap_append

theorem outermostKeywords_append (xs ys : List Event) :
    outermostKeywords (xs ++ ys) = outermostKeywords xs ++ outermostKeywords ys :=
  List.filterMap_append

/-- Events that pass no token inside of a scope pass no keyword of it. -/
theorem memberKeywords_eq_nil {events : List Event} {s : Scope}
    (h : ∀ t scope, .passed t scope ∈ events → s.inside t.index = false) :
    memberKeywords events s = [] := by
  refine List.filterMap_eq_nil_iff.mpr fun e he => ?_
  cases e with
  | passed t scope => simp [h t scope he]
  | _ => rfl

theorem outermostKeywords_eq_nil {events : List Event}
    (h : ∀ t scope, .passed t scope ∈ events → t.kind ≠ .constKeyword) :
    outermostKeywords events = [] := by
  refine List.filterMap_eq_nil_iff.mpr fun e he => ?_
  cases e with
  | passed t scope => simp [h t scope he]
  | _ => rfl

theorem scanStructureConstants_eq (options : ScanOptions) (tokens : List Token) (s : Scope) :
    scanStructureConstants options tokens s =
      (structureEvents tokens s).foldlM (structureStep options tokens) [] := by
  unfold scanStructureConstants structureEvents
  cases s.last with
  | none => rfl
  | some last =>
    dsimp only
    split <;> rfl

/-- Where every closing brace has its partner, the constants are read from the keywords of the
outermost scope. -/
theorem foldlM_structureStep (options : ScanOptions) (tokens : List Token) {events : List Event}
    (h : ∀ e ∈ events, e.warning? = none) (constants : Table String Constant) :
    events.foldlM (structureStep options tokens) constants =
      (outermostKeywords events).foldlM (readMembers options tokens) constants := by
  induction events generalizing constants with
  | nil => rfl
  | cons e rest ih =>
    obtain ⟨he, hrest⟩ := List.forall_mem_cons.mp h
    have hquiet : structureStep options tokens constants e = pure constants →
        outermostKeywords (e :: rest) = outermostKeywords rest →
        (e :: rest).foldlM (structureStep options tokens) constants =
          (outermostKeywords (e :: rest)).foldlM (readMembers options tokens) constants := by
      intro hstep hkeywords
      rw [List.foldlM_cons, hstep, pure_bind, hkeywords, ih hrest]
    cases e with
    | passed t scope =>
      by_cases hread : t.kind = .constKeyword ∧ scope.any (·.level == 0) = true
      · have hkeywords : outermostKeywords (.passed t scope :: rest) =
            t :: outermostKeywords rest := by
          simp [outermostKeywords, hread]
        have hstep : structureStep options tokens constants (.passed t scope) =
            readMembers options tokens constants t := if_pos hread
        rw [List.foldlM_cons, hkeywords, List.foldlM_cons, hstep]
        exact congrArg (readMembers options tokens constants t >>= ·) (funext fun c => ih hrest c)
      · refine hquiet (if_neg hread) ?_
        simp [outermostKeywords, hread]
    | unbalanced index => cases he
    | opened scope => exact hquiet rfl rfl
    | closed scope => exact hquiet rfl rfl

/-! ## Two traversals of a body -/

namespace Traversal

/-- The declaration that waits for its block is no namespace. -/
def AwaitsBlock (s : Traversal) : Prop := ∀ t, s.pending = some t → t.kind ≠ .namespaceKeyword

variable {s : Traversal} {t : Token} {rest : List Token}

theorem AwaitsBlock.process (h : s.AwaitsBlock) (hkind : t.kind ≠ .namespaceKeyword) :
    (s.process t rest).1.AwaitsBlock := by
  intro u hu
  rcases s.pending_process t rest with hsame | hnone | ⟨htoken, -⟩
  · exact h u (hsame.symm.trans hu)
  · cases hnone.symm.trans hu
  · cases htoken.symm.trans hu
    exact hkind

/-- The events of a stream: before a token, at it, behind it for a while, and behind that. -/
theorem events_split (pre mid post : List Token) (t : Token) :
    ∃ (s : Traversal) (before after : List Event),
      events (pre ++ t :: (mid ++ post)) =
        before ++ ((s.step t (mid ++ post)).2 ++
          ((run post (s.step t (mid ++ post)).1 mid).2 ++ after)) ∧
      (∀ u scope, .passed u scope ∈ before → u ∈ pre) ∧
      ∀ u scope, .passed u scope ∈ after → u ∈ post := by
  obtain ⟨s, hs⟩ : ∃ s, (run (t :: (mid ++ post)) {} pre).1 = s := ⟨_, rfl⟩
  obtain ⟨later, hlater⟩ :
      ∃ later, run [] (run post (s.step t (mid ++ post)).1 mid).1 post = later := ⟨_, rfl⟩
  obtain ⟨last, hlast⟩ : ∃ last : Int,
      ((pre ++ t :: (mid ++ post)).getLast?.map Token.index).getD (-1) = last := ⟨_, rfl⟩
  refine ⟨s, (run (t :: (mid ++ post)) {} pre).2, later.2 ++ later.1.finish last, ?_, ?_, ?_⟩
  · rw [events, hlast, run_append, run_cons, List.append_nil, List.append_nil, hs, run_append,
      List.append_nil, hlater]
    simp only [List.append_assoc]
  · exact fun u scope hu => mem_of_passed_run hu
  · intro u scope hu
    rcases List.mem_append.mp hu with hu | hu
    · rw [← hlater] at hu
      exact mem_of_passed_run hu
    · exact absurd hu not_passed_finish

/-- Where a scope is open and no namespace waits, only braces and the keyword `namespace` open and close
anything. -/
theorem process_within (rest : List Token) (hs : s.scopes ≠ []) (hpending : s.AwaitsBlock)
    (hkind : t.kind ≠ .namespaceKeyword) (hopening : t.isPunct "\x7b" = false)
    (hclosing : t.isPunct "\x7d" = false) :
    (s.process t rest).1.scopes = s.scopes ∧ (s.process t rest).2 = [] := by
  have hopen : s.scopes.isEmpty = false := by simpa using hs
  unfold process
  split
  · simp [hopen]
  · exact absurd ‹_› hkind
  · exact ⟨rfl, rfl⟩
  · exact ⟨rfl, rfl⟩
  · split <;> exact ⟨rfl, rfl⟩
  · split <;> exact ⟨rfl, rfl⟩
  · rename_i hpunct
    split
    · unfold terminate
      split
      · rename_i hnamespace
        obtain ⟨u, hu, hukind⟩ := Option.map_eq_some_iff.mp hnamespace
        exact absurd hukind (hpending u hu)
      · exact ⟨rfl, rfl⟩
      · exact ⟨rfl, rfl⟩
    · simp only [isPunct, hpunct, beq_self_eq_true, Bool.true_and, beq_eq_false_iff_ne]
        at hopening hclosing
      rw [if_neg hopening, if_neg hclosing]
      exact ⟨rfl, rfl⟩
  · exact ⟨rfl, rfl⟩

end Traversal

/-- A traversal of a whole stream, which is in the scope `home` of a structure or in the scopes `inner`
of its body, and the traversal of the structure alone, which is in as many scopes `inner'`. -/
structure Mirrors (home : Scope) (inner inner' : List Scope) (s s' : Traversal) : Prop where
  whole : ∃ outer, s.scopes = inner ++ home :: outer
  part : ∃ home', s'.scopes = inner' ++ [home'] ∧ home'.level = 0
  depth : inner.length = inner'.length
  later : ∀ a ∈ inner, home.first < a.first
  level : ∀ a ∈ inner', a.level ≠ 0
  waits : s.AwaitsBlock
  waits' : s'.AwaitsBlock

namespace Mirrors

variable {home : Scope} {inner inner' : List Scope} {s s' : Traversal} {t : Token}

theorem scopes_ne_nil (h : Mirrors home inner inner' s s') : s.scopes ≠ [] := by
  obtain ⟨outer, hscopes⟩ := h.whole
  simp [hscopes]

theorem scopes_ne_nil' (h : Mirrors home inner inner' s s') : s'.scopes ≠ [] := by
  obtain ⟨home', hscopes, -⟩ := h.part
  simp [hscopes]

/-- The scope of the structure is the innermost open one in both traversals or in neither. -/
theorem current_iff (h : Mirrors home inner inner' s s') :
    s.current? = some home ↔ s'.current?.any (·.level == 0) = true := by
  obtain ⟨outer, hscopes⟩ := h.whole
  obtain ⟨home', hscopes', hlevel⟩ := h.part
  have hdepth := h.depth
  rw [Traversal.current?, Traversal.current?, hscopes, hscopes']
  cases inner with
  | nil =>
    obtain rfl : inner' = [] := List.eq_nil_of_length_eq_zero hdepth.symm
    simp [hlevel]
  | cons a rest =>
    cases inner' with
    | nil => cases hdepth
    | cons a' rest' =>
      have hne : a ≠ home := fun heq => by
        have := h.later a (List.mem_cons_self ..)
        rw [heq] at this
        omega
      simp [hne, h.level a' (List.mem_cons_self ..)]

/-- A scope opens in both traversals. -/
theorem opens (h : Mirrors home inner inner' s s') {index : Int} (hindex : home.first < index) :
    ∃ a a', Mirrors home (a :: inner) (a' :: inner') (s.openScope index false).1
      (s'.openScope index false).1 := by
  obtain ⟨outer, hscopes⟩ := h.whole
  obtain ⟨home', hscopes', hlevel⟩ := h.part
  refine ⟨⟨s.scopes.length, s.current?.bind Scope.owner, s.pending, index, none, false⟩,
    ⟨s'.scopes.length, s'.current?.bind Scope.owner, s'.pending, index, none, false⟩,
    ⟨⟨outer, ?_⟩, ⟨home', ?_, hlevel⟩, ?_, ?_, ?_, fun _ ht => (nomatch ht),
      fun _ ht => (nomatch ht)⟩⟩
  · rw [List.cons_append, ← hscopes]
    rfl
  · rw [List.cons_append, ← hscopes']
    rfl
  · rw [List.length_cons, List.length_cons, h.depth]
  · exact List.forall_mem_cons.mpr ⟨hindex, h.later⟩
  · refine List.forall_mem_cons.mpr ⟨?_, h.level⟩
    simp [hscopes']

/-- A scope of the body closes in both traversals. -/
theorem closes {a a' : Scope} (h : Mirrors home (a :: inner) (a' :: inner') s s') (index : Int) :
    Mirrors home inner inner' (s.closeScope index).1 (s'.closeScope index).1 ∧
      (s'.closeScope index).2 = [.closed (a'.close index)] := by
  obtain ⟨outer, hscopes⟩ := h.whole
  obtain ⟨home', hscopes', hlevel⟩ := h.part
  have hclose : s.closeScope index =
      ({ s with scopes := inner ++ home :: outer }, [.closed (a.close index)]) := by
    rw [Traversal.closeScope, hscopes]
    rfl
  have hclose' : s'.closeScope index =
      ({ s' with scopes := inner' ++ [home'] }, [.closed (a'.close index)]) := by
    rw [Traversal.closeScope, hscopes']
    rfl
  rw [hclose, hclose']
  exact ⟨⟨⟨outer, rfl⟩, ⟨home', rfl, hlevel⟩, Nat.succ.inj h.depth,
    fun b hb => h.later b (List.mem_cons_of_mem a hb),
    fun b hb => h.level b (List.mem_cons_of_mem a' hb), h.waits, h.waits'⟩, rfl⟩

/-- Processing a token of the body keeps the traversals alike, unless it closes the scope of the
structure. -/
theorem process (h : Mirrors home inner inner' s s') (rest rest' : List Token)
    (hindex : home.first < t.index) (hkind : t.kind ≠ .namespaceKeyword)
    (hopen : .closed (home.close t.index) ∉ (s.process t rest).2) :
    (∃ inner₁ inner₁', Mirrors home inner₁ inner₁' (s.process t rest).1 (s'.process t rest').1) ∧
      ∀ e ∈ (s'.process t rest').2, e.warning? = none := by
  by_cases hopening : t.isPunct "\x7b" = true
  · rw [Traversal.process_opening hopening, Traversal.process_opening hopening]
    obtain ⟨a, a', hopens⟩ := h.opens hindex
    exact ⟨⟨_, _, hopens⟩, List.forall_mem_singleton.mpr rfl⟩
  · by_cases hclosing : t.isPunct "\x7d" = true
    · rw [Traversal.process_closing hclosing] at hopen ⊢
      rw [Traversal.process_closing hclosing]
      cases inner with
      | nil =>
        obtain ⟨outer, hscopes⟩ := h.whole
        rw [Traversal.closeScope, hscopes] at hopen
        exact absurd (List.mem_singleton_self _) hopen
      | cons a inner =>
        cases inner' with
        | nil => cases h.depth
        | cons a' inner' =>
          obtain ⟨hcloses, hevents⟩ := h.closes t.index
          rw [hevents]
          exact ⟨⟨_, _, hcloses⟩, List.forall_mem_singleton.mpr rfl⟩
    · rw [Bool.not_eq_true] at hopening hclosing
      obtain ⟨hscopes, -⟩ :=
        Traversal.process_within rest h.scopes_ne_nil h.waits hkind hopening hclosing
      obtain ⟨hscopes', hevents'⟩ :=
        Traversal.process_within rest' h.scopes_ne_nil' h.waits' hkind hopening hclosing
      refine ⟨⟨inner, inner', ?_, ?_, h.depth, h.later, h.level, h.waits.process hkind,
        h.waits'.process hkind⟩, ?_⟩
      · rw [hscopes]
        exact h.whole
      · rw [hscopes']
        exact h.part
      · rw [hevents']
        exact List.forall_mem_nil _

/-- Passing a token of the body keeps the traversals alike, and it is a keyword of the structure in both
or in neither. -/
theorem step (h : Mirrors home inner inner' s s') (rest rest' : List Token) {last : Int}
    (hindex : home.first < t.index) (hlast : t.index < last) (hhome : home.last = none)
    (hkind : t.kind ≠ .namespaceKeyword)
    (hopen : .closed (home.close t.index) ∉ (s.step t rest).2) :
    (∃ inner₁ inner₁', Mirrors home inner₁ inner₁' (s.step t rest).1 (s'.step t rest').1) ∧
      (∀ e ∈ (s'.step t rest').2, e.warning? = none) ∧
      memberKeywords (s.step t rest).2 (home.close last) =
        outermostKeywords (s'.step t rest').2 := by
  have hstep := h.process rest rest' hindex hkind fun hclosed => hopen <| by
    rw [Traversal.events_step]
    exact List.mem_append_left _ hclosed
  obtain ⟨⟨inner₁, inner₁', hmirrors⟩, hwarnings⟩ := hstep
  have hnext : Mirrors home inner₁ inner₁' (s.step t rest).1 (s'.step t rest').1 := by
    refine ⟨?_, ?_, hmirrors.depth, hmirrors.later, hmirrors.level, ?_, ?_⟩
    · rw [Traversal.scopes_step]
      exact hmirrors.whole
    · rw [Traversal.scopes_step]
      exact hmirrors.part
    · rw [Traversal.AwaitsBlock, Traversal.pending_step]
      exact hmirrors.waits
    · rw [Traversal.AwaitsBlock, Traversal.pending_step]
      exact hmirrors.waits'
  refine ⟨⟨inner₁, inner₁', hnext⟩, ?_, ?_⟩
  · rw [Traversal.events_step, List.forall_mem_append, List.forall_mem_singleton]
    exact ⟨hwarnings, rfl⟩
  · have hreopen : (home.close last).reopen = home := by
      have hsame : { home with last := none } = home := by rw [← hhome]
      exact hsame
    have hinside : (home.close last).inside t.index = true := by
      simp [Scope.inside, hindex, hlast]
    rw [Traversal.events_step, Traversal.events_step, memberKeywords_append,
      outermostKeywords_append, memberKeywords_eq_nil, outermostKeywords_eq_nil]
    · simp only [memberKeywords, outermostKeywords, List.filterMap_cons, List.filterMap_nil, hreopen,
        hinside, hnext.current_iff, true_and, List.nil_append]
    · exact fun u scope hu => absurd hu Traversal.not_passed_process
    · exact fun u scope hu => absurd hu Traversal.not_passed_process

/-- A run over the body keeps the traversals alike, and both pass the same keywords of the structure. -/
theorem run (h : Mirrors home inner inner' s s') (beyond beyond' : List Token) {ts : List Token}
    {last : Int} (hhome : home.last = none) (hts : ∀ t ∈ ts, home.first < t.index ∧ t.index < last ∧
      t.kind ≠ .namespaceKeyword ∧ .closed (home.close t.index) ∉ (Traversal.run beyond s ts).2) :
    (∀ e ∈ (Traversal.run beyond' s' ts).2, e.warning? = none) ∧
      memberKeywords (Traversal.run beyond s ts).2 (home.close last) =
        outermostKeywords (Traversal.run beyond' s' ts).2 := by
  induction ts generalizing inner inner' s s' with
  | nil => exact ⟨List.forall_mem_nil _, rfl⟩
  | cons t rest ih =>
    rw [Traversal.run_cons] at hts
    obtain ⟨⟨hindex, hlast, hkind, hopen⟩, hrest⟩ := List.forall_mem_cons.mp hts
    obtain ⟨⟨inner₁, inner₁', hnext⟩, hwarnings, hkeywords⟩ :=
      h.step (rest ++ beyond) (rest ++ beyond') hindex hlast hhome hkind
        fun hclosed => hopen (List.mem_append_left _ hclosed)
    obtain ⟨hwarnings', hkeywords'⟩ := ih hnext fun u hu => by
      obtain ⟨huindex, hulast, hukind, huopen⟩ := hrest u hu
      exact ⟨huindex, hulast, hukind, fun hclosed => huopen (List.mem_append_right _ hclosed)⟩
    rw [Traversal.run_cons, Traversal.run_cons, memberKeywords_append, outermostKeywords_append,
      hkeywords, hkeywords']
    exact ⟨List.forall_mem_append.mpr ⟨hwarnings, hwarnings'⟩, rfl⟩

/-- At the brace of a structure its scope opens in both traversals. -/
theorem opening (s : Traversal) (rest rest' : List Token) (hbrace : t.isPunct "\x7b" = true) :
    ∃ home : Scope, home.first = t.index ∧ home.last = none ∧ .opened home ∈ (s.step t rest).2 ∧
      Mirrors home [] [] (s.step t rest).1 (({} : Traversal).step t rest').1 ∧
      ∀ e ∈ (({} : Traversal).step t rest').2, e.warning? = none := by
  have hpending (s : Traversal) : ((s.openScope t.index false).1.note t).AwaitsBlock := by
    intro u hu
    rw [Traversal.pending_note] at hu
    cases hu
  rw [Traversal.step_eq, Traversal.step_eq, Traversal.process_opening hbrace,
    Traversal.process_opening hbrace]
  refine ⟨⟨s.scopes.length, s.current?.bind Scope.owner, s.pending, t.index, none, false⟩, rfl, rfl,
    List.mem_cons_self .., ⟨⟨s.scopes, ?_⟩, ⟨⟨0, none, none, t.index, none, false⟩, ?_, rfl⟩, rfl,
      List.forall_mem_nil _, List.forall_mem_nil _, hpending s, hpending {}⟩, ?_⟩
  · rw [Traversal.scopes_note]
    rfl
  · rw [Traversal.scopes_note]
    rfl
  · exact List.forall_mem_cons.mpr ⟨rfl, List.forall_mem_singleton.mpr rfl⟩

end Mirrors

/-! ## The body in its stream -/

/-- A scope that opens where one of the scopes of the events starts is that scope. -/
theorem Tracks.opened_eq {first next : Int} {events : List Event} {scopes stack : List Scope}
    (h : Tracks first next events scopes stack) {a o : Scope} (ha : a ∈ scopes)
    (ho : .opened o ∈ events) (hfirst : o.first = a.first) : o = a.reopen := by
  obtain ⟨b, hb, hsame, rfl⟩ := h.exists_of_opened ho
  rw [h.eq_of_first hb ha (hsame.trans hfirst)]

section

variable {tokens : List Token} (hnumbered : Numbered 0 tokens)

include hnumbered

theorem owned_events : Owned tokens (Traversal.events tokens) := by
  obtain ⟨-, hfinish⟩ : Owned (tokens ++ []) (Traversal.run [] {} tokens).2 ∧ _ :=
    owned_run hnumbered
  have howned := hfinish tokens.length (by omega)
  rw [List.append_nil, ← lastIndex_eq hnumbered] at howned
  exact howned

variable {s : Scope} (hs : s ∈ closedScopes (Traversal.events tokens))

include hs

/-- The scope of a structure starts at a brace and ends within the stream. -/
theorem exists_opening (howner : s.ownerKind?.any ownsMethods = true) :
    ∃ pre brace rest last, tokens = pre ++ brace :: rest ∧ brace.index = s.first ∧
      brace.isPunct "\x7b" = true ∧ s.last = some last ∧ s.first ≤ last ∧
      last < tokens.length := by
  have hmem := (mem_closedScopes_events hnumbered s).mp hs
  obtain ⟨last, hlast, -, hle, hend⟩ := (wellNested_events hnumbered).within s hmem
  obtain ⟨brace, hbrace, hfirst, -, hnamespace, hbegins⟩ := (owned_events hnumbered).begins s hmem
  have hbraces : s.braceless = false := by
    cases hbraceless : s.braceless with
    | false => rfl
    | true => simp [hnamespace hbraceless, ownsMethods] at howner
  obtain ⟨pre, rest, htokens⟩ := List.append_of_mem hbrace
  refine ⟨pre, brace, rest, last, htokens, hfirst, ?_, hlast, hle, by omega⟩
  rcases hbegins hbraces with hopening | ⟨htag, howns⟩
  · exact hopening
  · simp [Scope.ownerKind?, howns, htag, ownsMethods] at howner

/-- A scope that closes where the scope `s` starts is `s`. -/
theorem last_of_closed {c : Scope} (hc : .closed c ∈ Traversal.events tokens)
    (hfirst : c.first = s.first) : c.last = s.last := by
  have hclosed : c ∈ closedScopes (Traversal.events tokens) :=
    List.mem_filterMap.mpr ⟨_, hc, rfl⟩
  rw [mem_closedScopes_events hnumbered] at hs hclosed
  rw [(attributed_events hnumbered).1.eq_of_first hclosed hs hfirst]

end

/-- The traversal of a structure passes its tokens but the last one. -/
theorem structureEvents_eq {pre mid post : List Token} {brace : Token} {s : Scope} {last : Int}
    (hnumbered : Numbered 0 (pre ++ brace :: (mid ++ post))) (hfirst : brace.index = s.first)
    (hlast : s.last = some last) (hmid : last = s.first + 1 + mid.length) :
    structureEvents (pre ++ brace :: (mid ++ post)) s = Traversal.events (brace :: mid) := by
  have hlength := index_eq_length hnumbered
  have hclamp : TokenRange.clamp (pre ++ brace :: (mid ++ post)).length s.first = pre.length := by
    simp only [TokenRange.clamp, List.length_append, List.length_cons]
    omega
  have hclamp' : TokenRange.clamp (pre ++ brace :: (mid ++ post)).length last =
      (pre ++ brace :: mid).length := by
    simp only [TokenRange.clamp, List.length_append, List.length_cons]
    omega
  have hsplit : pre ++ brace :: (mid ++ post) = (pre ++ brace :: mid) ++ post := by simp
  have hrange : ¬ (s.first < 0 ∨ last < s.first) := by omega
  rw [structureEvents, hlast]
  simp only [hrange, if_false, hclamp, hclamp', TokenRange.slice]
  rw [hsplit, List.take_left, List.drop_left]

/-- Nothing is passed in a structure that ends where it starts. -/
theorem structureEvents_eq_nil (tokens : List Token) {s : Scope} (hlast : s.last = some s.first) :
    structureEvents tokens s = [] := by
  rw [structureEvents, hlast]
  dsimp only
  split
  · rfl
  · rw [TokenRange.slice, List.drop_eq_nil_of_le (List.length_take_le _ _)]
    rfl

/-- The positions inside of a scope are those of its body. -/
theorem inside_body {pre mid post : List Token} {brace : Token} {s : Scope} {last : Int}
    (hnumbered : Numbered 0 (pre ++ brace :: (mid ++ post))) (hfirst : brace.index = s.first)
    (hlast : s.last = some last) (hmid : last = s.first + 1 + mid.length) :
    (∀ t ∈ pre, s.inside t.index = false) ∧ (∀ t ∈ mid, s.inside t.index = true) ∧
      ∀ t ∈ post, s.inside t.index = false := by
  have hlength := index_eq_length hnumbered
  have hmiddle : pre ++ brace :: (mid ++ post) = (pre ++ [brace]) ++ (mid ++ post) := by simp
  have hback : pre ++ brace :: (mid ++ post) = (pre ++ brace :: mid) ++ (post ++ []) := by simp
  refine ⟨fun t ht => ?_, fun t ht => ?_, fun t ht => ?_⟩
  · have hfront : pre ++ brace :: (mid ++ post) = [] ++ (pre ++ brace :: (mid ++ post)) := rfl
    have hbounds := index_mem (hfront ▸ hnumbered) ht
    rw [Bool.eq_false_iff, ne_eq, Scope.inside_iff hlast]
    simp only [List.length_nil] at hbounds
    omega
  · have hbounds := index_mem (hmiddle ▸ hnumbered) ht
    rw [Scope.inside_iff hlast]
    simp only [List.length_append, List.length_singleton] at hbounds
    omega
  · have hbounds := index_mem (hback ▸ hnumbered) ht
    rw [Bool.eq_false_iff, ne_eq, Scope.inside_iff hlast]
    simp only [List.length_append, List.length_cons] at hbounds
    omega

/-- A traversal of a brace and what follows it, on its own. -/
theorem events_brace (brace : Token) (mid : List Token) :
    Traversal.events (brace :: mid) = (({} : Traversal).step brace mid).2 ++
      ((Traversal.run [] (({} : Traversal).step brace mid).1 mid).2 ++
        (Traversal.run [] (({} : Traversal).step brace mid).1 mid).1.finish
          (((brace :: mid).getLast?.map Token.index).getD (-1))) := by
  rw [Traversal.events, Traversal.run_cons, List.append_nil]
  exact List.append_assoc _ _ _

theorem outermostKeywords_brace {brace : Token} (hbrace : brace.isPunct "\x7b" = true)
    (mid : List Token) : outermostKeywords (Traversal.events (brace :: mid)) =
      outermostKeywords (Traversal.run [] (({} : Traversal).step brace mid).1 mid).2 := by
  have hpunct : brace.kind ≠ .constKeyword := by
    rw [kind_of_isPunct hbrace]
    decide
  rw [events_brace, outermostKeywords_append, outermostKeywords_append,
    outermostKeywords_eq_nil fun u scope hu => Traversal.eq_of_passed_step hu ▸ hpunct,
    outermostKeywords_eq_nil fun u scope hu => absurd hu Traversal.not_passed_finish,
    List.nil_append, List.append_nil]

/-- The body of a structure in its stream and on its own: the keywords directly in its scope are those
of the outermost scope, and every closing brace has its partner. -/
theorem outermostKeywords_body {pre mid post : List Token} {brace : Token} {s : Scope} {last : Int}
    (hnumbered : Numbered 0 (pre ++ brace :: (mid ++ post)))
    (hs : s ∈ closedScopes (Traversal.events (pre ++ brace :: (mid ++ post))))
    (hfirst : brace.index = s.first) (hbrace : brace.isPunct "\x7b" = true)
    (hlast : s.last = some last) (hmid : last = s.first + 1 + mid.length)
    (hbody : ∀ t ∈ mid, t.kind ≠ .namespaceKeyword) :
    (∀ e ∈ Traversal.events (brace :: mid), e.warning? = none) ∧
      outermostKeywords (Traversal.events (brace :: mid)) =
        memberKeywords (Traversal.events (pre ++ brace :: (mid ++ post))) s := by
  have hscopes := (mem_closedScopes_events hnumbered s).mp hs
  have hlength := index_eq_length hnumbered
  obtain ⟨hpre, hmiddle, hpost⟩ := inside_body hnumbered hfirst hlast hmid
  obtain ⟨s₀, before, after, hevents, hbefore, hafter⟩ := Traversal.events_split pre mid post brace
  obtain ⟨home, hstart, hhome, hopened, hmirrors, hquiet⟩ :=
    Mirrors.opening s₀ (mid ++ post) mid hbrace
  have hmem {e : Event} : e ∈ Traversal.events (pre ++ brace :: (mid ++ post)) ↔ e ∈ before ∨
      e ∈ (s₀.step brace (mid ++ post)).2 ∨
        e ∈ (Traversal.run post (s₀.step brace (mid ++ post)).1 mid).2 ∨ e ∈ after := by
    rw [hevents, List.mem_append, List.mem_append, List.mem_append]
  have hsame : home.close last = s := by
    have hreopen := (attributed_events hnumbered).1.opened_eq hscopes
      (hmem.mpr (.inr (.inl hopened))) (hstart.trans hfirst)
    rw [hreopen]
    show { s with last := some last } = s
    rw [← hlast]
  have hts : ∀ t ∈ mid, home.first < t.index ∧ t.index < last ∧ t.kind ≠ .namespaceKeyword ∧
      .closed (home.close t.index) ∉
        (Traversal.run post (s₀.step brace (mid ++ post)).1 mid).2 := by
    intro t ht
    obtain ⟨hlow, hhigh⟩ := (Scope.inside_iff hlast).mp (hmiddle t ht)
    refine ⟨by omega, hhigh, hbody t ht, fun hclosed => ?_⟩
    have hend := last_of_closed hnumbered hs (hmem.mpr (.inr (.inr (.inl hclosed))))
      (hstart.trans hfirst)
    rw [hlast, Scope.last_close, Option.some.injEq] at hend
    omega
  obtain ⟨hwarnings, hkeywords⟩ := hmirrors.run post [] hhome hts
  constructor
  · rw [events_brace, List.forall_mem_append, List.forall_mem_append]
    refine ⟨hquiet, hwarnings, fun e he => ?_⟩
    obtain ⟨c, -, rfl⟩ := List.mem_map.mp he
    rfl
  · have hnone : ∀ {events : List Event},
        (∀ u scope, .passed u scope ∈ events → s.inside u.index = false) →
          memberKeywords events s = [] := memberKeywords_eq_nil
    have hbrace' : s.inside brace.index = false := by
      simp [Scope.inside, hfirst]
    calc outermostKeywords (Traversal.events (brace :: mid))
      _ = outermostKeywords
            (Traversal.run [] (({} : Traversal).step brace mid).1 mid).2 :=
          outermostKeywords_brace hbrace mid
      _ = memberKeywords (Traversal.run post (s₀.step brace (mid ++ post)).1 mid).2 s := by
          rw [← hkeywords, hsame]
      _ = memberKeywords (Traversal.events (pre ++ brace :: (mid ++ post))) s := by
          rw [hevents, memberKeywords_append, memberKeywords_append, memberKeywords_append,
            hnone fun u scope hu => hpre u (hbefore u scope hu),
            hnone fun u scope hu => Traversal.eq_of_passed_step hu ▸ hbrace',
            hnone fun u scope hu => hpost u (hafter u scope hu),
            List.nil_append, List.nil_append, List.append_nil]

/-- Every stream and every structure in it whose body holds no keyword `namespace`: the keywords `const`
from which the constants of the structure are read are those between its braces that stand directly in
its scope in the traversal of the whole stream, in order. -/
theorem scanStructureConstants_members {tokens : List Token} (hnumbered : Numbered 0 tokens)
    {s : Scope} (hs : s ∈ closedScopes (Traversal.events tokens))
    (howner : s.ownerKind?.any ownsMethods = true)
    (hbody : ∀ t ∈ tokens, s.inside t.index = true → t.kind ≠ .namespaceKeyword) :
    outermostKeywords (structureEvents tokens s) = memberKeywords (Traversal.events tokens) s ∧
      ∀ options, scanStructureConstants options tokens s =
        (memberKeywords (Traversal.events tokens) s).foldlM (readMembers options tokens) [] := by
  obtain ⟨pre, brace, rest, last, rfl, hfirst, hbrace, hlast, hle, hend⟩ :=
    exists_opening hnumbered hs howner
  have hstructure : (∀ e ∈ structureEvents (pre ++ brace :: rest) s, e.warning? = none) ∧
      outermostKeywords (structureEvents (pre ++ brace :: rest) s) =
        memberKeywords (Traversal.events (pre ++ brace :: rest)) s := by
    rcases Int.lt_or_eq_of_le hle with hlt | heq
    · obtain ⟨mid, post, rfl, hmid⟩ : ∃ mid post, rest = mid ++ post ∧
          last = s.first + 1 + mid.length := by
        have hlength := index_eq_length hnumbered
        rw [List.length_append, List.length_cons] at hend
        refine ⟨_, _, (List.take_append_drop (last - s.first - 1).toNat rest).symm, ?_⟩
        rw [List.length_take]
        omega
      have hmiddle := (inside_body hnumbered hfirst hlast hmid).2.1
      rw [structureEvents_eq hnumbered hfirst hlast hmid]
      exact outermostKeywords_body hnumbered hs hfirst hbrace hlast hmid fun t ht =>
        hbody t (by simp [ht]) (hmiddle t ht)
    · -- The stream ends at the brace.
      subst heq
      rw [structureEvents_eq_nil _ hlast, memberKeywords_eq_nil]
      · exact ⟨List.forall_mem_nil _, rfl⟩
      · intro t scope ht
        rw [Bool.eq_false_iff, ne_eq, Scope.inside_iff hlast]
        omega
  obtain ⟨hwarnings, hkeywords⟩ := hstructure
  refine ⟨hkeywords, fun options => ?_⟩
  rw [scanStructureConstants_eq, foldlM_structureStep options _ hwarnings, hkeywords]

/-- The source `class C { const A = 1; function f() { new class { const B = 2; }; } const D = 3; }`. -/
def nestedTokens : List Token :=
  number 0 [⟨.openTag, "<?php", 1, 0⟩, ⟨.classKeyword, "class", 2, 0⟩, ⟨.identifier, "C", 2, 0⟩,
    ⟨.punctuation, "\x7b", 2, 0⟩,
    ⟨.constKeyword, "const", 3, 0⟩, ⟨.identifier, "A", 3, 0⟩, ⟨.punctuation, "=", 3, 0⟩,
    ⟨.numberLiteral, "1", 3, 0⟩, ⟨.punctuation, ";", 3, 0⟩,
    ⟨.functionKeyword, "function", 4, 0⟩, ⟨.identifier, "f", 4, 0⟩, ⟨.punctuation, "(", 4, 0⟩,
    ⟨.punctuation, ")", 4, 0⟩, ⟨.punctuation, "\x7b", 4, 0⟩,
    ⟨.keyword, "new", 5, 0⟩, ⟨.classKeyword, "class", 5, 0⟩, ⟨.punctuation, "\x7b", 5, 0⟩,
    ⟨.constKeyword, "const", 6, 0⟩, ⟨.identifier, "B", 6, 0⟩, ⟨.punctuation, "=", 6, 0⟩,
    ⟨.numberLiteral, "2", 6, 0⟩, ⟨.punctuation, ";", 6, 0⟩,
    ⟨.punctuation, "\x7d", 7, 0⟩, ⟨.punctuation, ";", 7, 0⟩, ⟨.punctuation, "\x7d", 8, 0⟩,
    ⟨.constKeyword, "const", 9, 0⟩, ⟨.identifier, "D", 9, 0⟩, ⟨.punctuation, "=", 9, 0⟩,
    ⟨.numberLiteral, "3", 9, 0⟩, ⟨.punctuation, ";", 9, 0⟩, ⟨.punctuation, "\x7d", 10, 0⟩]

/-- The constant of a class inside of a method belongs to that class only. -/
theorem scanStructureConstants_members_nestedTokens :
    let s : Scope := ⟨1, some ⟨.openTag, "<?php", 1, 0⟩, some ⟨.classKeyword, "class", 2, 1⟩, 3,
      some 30, false⟩
    s ∈ closedScopes (Traversal.events nestedTokens) ∧
      (outermostKeywords (structureEvents nestedTokens s)).map Token.index = [4, 25] ∧
      outermostKeywords (structureEvents nestedTokens s) =
        memberKeywords (Traversal.events nestedTokens) s := by
  intro s
  have hs : s ∈ closedScopes (Traversal.events nestedTokens) := by decide
  have hbody : ∀ t ∈ nestedTokens, s.inside t.index = true → t.kind ≠ .namespaceKeyword := by
    decide
  refine ⟨hs, by decide, ?_⟩
  exact (scanStructureConstants_members (numbered_number 0 _) hs rfl hbody).1

end Reflection
