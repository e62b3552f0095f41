import Reflection.Proofs.Declaration.Symbols
import Reflection.Proofs.Declaration.WellFormed
import Reflection.Proofs.Scope.Braces

/-!
# Statements in bodies

A statement belongs to the file where the innermost open scope is none, the outermost one, or a namespace.
The body of a structure or of a function is not the outermost scope as long as the scope of the file is open
around it. Before the open tag no such scope is open, and a closing brace without partner closes it: a body
is the outermost scope there, and the constants and imports in it are filed as those of the file.

## Main definitions

* `Scope.IsBody`: a scope is the body of a structure or of a function.
* `FileStays`: the scope of the file is open below all others.

## Main statements

* `FileStays.step`, `FileStays.run`: the scope of the file stays open until a closing brace is left without
  partner.
* `exists_passed_of_mem_streamListings`: the statements that are filed stand at the level of the file.
* `level_eq_zero_iff`: a scope is at the outermost level just where no other scope is around its start.
* `scan_bodies`: when the imports and constants in a body are filed.
-/
namespace Reflection

open Token

/-- The keywords of structures and functions. -/
def bodyOwners : List TokenKind := [.classKeyword, .interfaceKeyword, .traitKeyword, .functionKeyword]

/-- A scope is the body of a structure or of a function. -/
def Scope.IsBody (s : Scope) : Prop := ∃ kind ∈ s.ownerKind?, kind ∈ bodyOwners

/-! ## The scope of the file -/

/-- A token that is no brace opens a scope, or closes the innermost one if that has no braces, or does
neither. -/
theorem Traversal.scopes_process_other (s : Traversal) {t : Token} (rest : List Token)
    (hopening : t.isPunct "\x7b" = false) (hclosing : t.isPunct "\x7d" = false) :
    (s.process t rest).1.scopes = s.scopes ∨
      (∃ a, (s.process t rest).1.scopes = a :: s.scopes ∧ a.level = s.scopes.length) ∨
        ∃ a, s.scopes = a :: (s.process t rest).1.scopes ∧ a.braceless = true := by
  have hopens (s' : Traversal) (braceless : Bool) (hs' : s'.scopes = s.scopes) :
      ∃ a, (s'.openScope t.index braceless).1.scopes = a :: s.scopes ∧ a.level = s.scopes.length := by
    rw [← hs']
    exact ⟨_, rfl, rfl⟩
  have hcloses : (s.closeBraceless t.index).1.scopes = s.scopes ∨
      ∃ a, s.scopes = a :: (s.closeBraceless t.index).1.scopes ∧ a.braceless = true := by
    unfold closeBraceless
    split
    · rename_i a outer hscopes
      split
      · rename_i hbraceless
        simp only [closeScope, hscopes]
        exact .inr ⟨a, rfl, hbraceless⟩
      · exact .inl rfl
    · exact .inl rfl
  unfold process
  split
  · split
    · exact .inr (.inl (hopens _ _ rfl))
    · exact .inl rfl
  · split
    · exact .inl rfl
    · exact hcloses.imp_right .inr
  · exact .inl rfl
  · exact .inl rfl
  · split <;> exact .inl rfl
  · split <;> exact .inl rfl
  · rename_i hkind
    have hpunct (text : String) : t.isPunct text = (t.text == text) := by simp [isPunct, hkind]
    rw [hpunct, beq_eq_false_iff_ne] at hopening hclosing
    rw [if_neg hopening, if_neg hclosing]
    split
    · unfold terminate
      split
      · exact .inr (.inl (hopens _ _ rfl))
      · exact .inl rfl
      · exact .inl rfl
    · exact .inl rfl
  · exact .inl rfl

/-- The scope of the file is open below all others, and at least as many scopes in braces are open above it
as braces of the tokens so far wait for their partners. -/
structure FileStays (file : Scope) (pre : List Token) (inner scopes : List Scope) : Prop where
  scopes_eq : scopes = inner ++ [file]
  not_braceless : file.braceless = false
  not_body : ¬ file.IsBody
  level_ne : ∀ a ∈ inner, a.level ≠ 0
  waiting : openings pre ≤ closings pre + inner.countP (!·.braceless)

namespace FileStays

variable {file : Scope} {pre rest : List Token} {inner scopes : List Scope} {s : Traversal} {t : Token}

/-- Another scope opens inside of the file. -/
theorem opens (h : FileStays file pre inner scopes) {a : Scope} (hlevel : a.level = scopes.length)
    (hwaiting : openings (pre ++ [t]) ≤
      closings (pre ++ [t]) + (a :: inner).countP (!·.braceless)) :
    FileStays file (pre ++ [t]) (a :: inner) (a :: scopes) where
  scopes_eq := by rw [h.scopes_eq, List.cons_append]
  not_braceless := h.not_braceless
  not_body := h.not_body
  level_ne := by
    refine List.forall_mem_cons.mpr ⟨?_, h.level_ne⟩
    rw [hlevel, h.scopes_eq]
    simp
  waiting := hwaiting

/-- A scope that is not the one of the file closes. -/
theorem closes {a : Scope} (h : FileStays file pre (a :: inner) scopes)
    (hwaiting : openings (pre ++ [t]) ≤ closings (pre ++ [t]) + inner.countP (!·.braceless)) :
    FileStays file (pre ++ [t]) inner scopes.tail where
  scopes_eq := by rw [h.scopes_eq, List.cons_append, List.tail_cons]
  not_braceless := h.not_braceless
  not_body := h.not_body
  level_ne := (List.forall_mem_cons.mp h.level_ne).2
  waiting := hwaiting

/-- Processing a token keeps the file open, as long as no closing brace is left without partner. -/
theorem process (h : FileStays file pre inner s.scopes) (rest : List Token)
    (hwaiting : closings (pre ++ [t]) ≤ openings (pre ++ [t])) :
    ∃ inner', FileStays file (pre ++ [t]) inner' (s.process t rest).1.scopes := by
  have hcount := h.waiting
  obtain ⟨hopening, -⟩ | ⟨-, hclosing⟩ | ⟨hopening, hclosing⟩ := brace_cases t
  · obtain ⟨hopenings, hclosings⟩ := counts_opening hopening pre
    rw [Traversal.process_opening hopening]
    refine ⟨_, h.opens rfl ?_⟩
    rw [hopenings, hclosings, List.countP_cons_of_pos (by rfl)]
    omega
  · obtain ⟨hopenings, hclosings⟩ := counts_closing hclosing pre
    rw [hopenings, hclosings] at hwaiting
    -- A brace waits, so that the innermost scope is not the one of the file.
    cases inner with
    | nil =>
      rw [List.countP_nil] at hcount
      omega
    | cons a inner =>
      have hscopes : (s.process t rest).1.scopes = s.scopes.tail := by
        rw [Traversal.process_closing hclosing, Traversal.closeScope, h.scopes_eq]
        rfl
      rw [hscopes]
      refine ⟨inner, h.closes ?_⟩
      have hone : (a :: inner).countP (!·.braceless) ≤ inner.countP (!·.braceless) + 1 := by
        rw [List.countP_cons]
        split <;> omega
      rw [hopenings, hclosings]
      omega
  · obtain ⟨hopenings, hclosings⟩ := counts_other hopening hclosing pre
    obtain hkeeps | ⟨a, hopens, hlevel⟩ | ⟨a, hcloses, hbraceless⟩ :=
      s.scopes_process_other rest hopening hclosing
    · rw [hkeeps]
      exact ⟨inner, { h with waiting := by rw [hopenings, hclosings]; exact hcount }⟩
    · rw [hopens]
      refine ⟨a :: inner, h.opens hlevel ?_⟩
      rw [hopenings, hclosings, List.countP_cons]
      omega
    · cases inner with
      | nil =>
        have hfile : a = file := by
          have hscopes := h.scopes_eq
          rw [hcloses] at hscopes
          exact (List.cons.inj hscopes).1
        rw [hfile, h.not_braceless] at hbraceless
        cases hbraceless
      | cons b inner =>
        have hinnermost : a = b ∧ (s.process t rest).1.scopes = s.scopes.tail := by
          have hscopes := h.scopes_eq
          rw [hcloses] at hscopes
          exact ⟨(List.cons.inj hscopes).1, by rw [hcloses, List.tail_cons]⟩
        obtain ⟨rfl, htail⟩ := hinnermost
        rw [htail]
        refine ⟨inner, h.closes ?_⟩
        rw [List.countP_cons_of_neg (by simp [hbraceless])] at hcount
        rw [hopenings, hclosings]
        exact hcount

/-- Passing a token keeps the file open, as long as no closing brace is left without partner. -/
theorem step (h : FileStays file pre inner s.scopes) (rest : List Token)
    (hwaiting : closings (pre ++ [t]) ≤ openings (pre ++ [t])) :
    ∃ inner', FileStays file (pre ++ [t]) inner' (s.step t rest).1.scopes := by
  rw [Traversal.scopes_step]
  exact h.process rest hwaiting

/-- A run keeps the file open, as long as no closing brace is left without partner. -/
theorem run {ts : List Token} (h : FileStays file pre inner s.scopes) (beyond : List Token)
    (hwaiting : ∀ front, front <+: ts → closings (pre ++ front) ≤ openings (pre ++ front)) :
    ∃ inner', FileStays file (pre ++ ts) inner' (Traversal.run beyond s ts).1.scopes := by
  induction ts generalizing pre inner s with
  | nil => exact ⟨inner, by rwa [List.append_nil]⟩
  | cons t rest ih =>
    obtain ⟨inner', hstep⟩ := h.step (rest ++ beyond) (hwaiting [t] (by simp))
    obtain ⟨last, hrun⟩ := ih hstep fun front hfront => by
      rw [← List.append_cons]
      exact hwaiting (t :: front) (List.cons_prefix_cons.mpr ⟨rfl, hfront⟩)
    rw [← List.append_cons] at hrun
    exact ⟨last, hrun⟩

/-- No body is the outermost scope while the file stays open. -/
theorem level_ne_of_body (h : FileStays file pre inner scopes) {a : Scope} (ha : a ∈ scopes)
    (hbody : a.IsBody) : a.level ≠ 0 := by
  rw [h.scopes_eq, List.mem_append, List.mem_singleton] at ha
  rcases ha with ha | rfl
  · exact h.level_ne a ha
  · exact absurd hbody h.not_body

end FileStays

theorem Traversal.scopes_run_html {html : List Token} (hhtml : ∀ t ∈ html, t.kind = .inlineHtml)
    (beyond : List Token) (s : Traversal) : (run beyond s html).1.scopes = s.scopes := by
  induction html generalizing s with
  | nil => rfl
  | cons t rest ih =>
    obtain ⟨ht, hrest⟩ := List.forall_mem_cons.mp hhtml
    rw [run_cons, ih hrest, scopes_step]
    simp only [process, ht]

/-- The open tag opens the scope of the file. -/
theorem fileStays_openTag {tag : Token} (htag : tag.kind = .openTag) {s : Traversal} (hs : s.scopes = [])
    (rest : List Token) :
    ∃ file, FileStays file [] [] (s.step tag rest).1.scopes := by
  have hscopes : (s.step tag rest).1.scopes = [{ owner := some tag, first := tag.index }] := by
    rw [Traversal.scopes_step]
    simp [Traversal.process, htag, hs, Traversal.openScope, Traversal.current?]
  refine ⟨_, hscopes, rfl, ?_, List.forall_mem_nil _, Nat.le_refl _⟩
  rintro ⟨kind, hkind, hbody⟩
  obtain rfl : tag.kind = kind := by simpa [Scope.ownerKind?] using hkind
  rw [htag] at hbody
  exact absurd hbody (by decide)

variable {html before after tokens : List Token} {tag t : Token} {s : Scope}

/-- After an open tag no body is the outermost scope before a closing brace without partner. -/
theorem level_ne_of_waiting (hnumbered : Numbered 0 (html ++ tag :: (before ++ t :: after)))
    (hhtml : ∀ u ∈ html, u.kind = .inlineHtml) (htag : tag.kind = .openTag)
    (hwaiting : ∀ front, front <+: before ++ [t] → closings front ≤ openings front)
    (hpassed : .passed t (some s) ∈ Traversal.events (html ++ tag :: (before ++ t :: after)))
    (hbody : s.IsBody) : s.level ≠ 0 := by
  have hsplit : html ++ tag :: (before ++ t :: after) = (html ++ tag :: before) ++ t :: after := by simp
  rw [hsplit] at hnumbered hpassed
  have hcurrent := (Traversal.passed_events_iff hnumbered).mp hpassed
  have hfront : (html ++ tag :: before) ++ [t] = html ++ tag :: (before ++ [t]) := by simp
  rw [hfront, Traversal.run_append, Traversal.run_cons] at hcurrent
  have hhtml' := Traversal.scopes_run_html hhtml (tag :: (before ++ [t]) ++ after) {}
  obtain ⟨file, hfile⟩ := fileStays_openTag htag hhtml' (before ++ [t] ++ after)
  obtain ⟨inner, hstays⟩ := hfile.run after hwaiting
  exact hstays.level_ne_of_body (List.mem_of_mem_head? hcurrent.symm) hbody

/-- The tokens that are passed are those of the stream. -/
theorem Traversal.mem_of_passed_events {scope : Option Scope} (h : .passed t scope ∈ events tokens) :
    t ∈ tokens := by
  rcases List.mem_append.mp h with h | h
  · exact mem_of_passed_run h
  · exact absurd h not_passed_finish

/-- A token is passed once. -/
theorem Traversal.eq_of_passed_events (hnumbered : Numbered 0 tokens) {scope scope' : Option Scope}
    (h : .passed t scope ∈ events tokens) (h' : .passed t scope' ∈ events tokens) : scope = scope' := by
  obtain ⟨front, after, rfl⟩ := List.append_of_mem (mem_of_passed_events h)
  exact ((passed_events_iff hnumbered).mp h).trans ((passed_events_iff hnumbered).mp h').symm

/-- A scope is at the outermost level just where no other scope is around its start. -/
theorem level_eq_zero_iff (hnumbered : Numbered 0 tokens)
    (hpassed : .passed t (some s) ∈ Traversal.events tokens) :
    s.level = 0 ↔ ∀ a ∈ closedScopes (Traversal.events tokens), a.spans s.first = false := by
  obtain ⟨front, after, rfl⟩ := List.append_of_mem (Traversal.mem_of_passed_events hpassed)
  have hcurrent := (Traversal.passed_events_iff hnumbered).mp hpassed
  have hsplit : front ++ t :: after = (front ++ [t]) ++ after := List.append_cons front t after
  rw [hsplit] at hnumbered ⊢
  obtain ⟨scopes, htracks⟩ := (Tracks.start 0 0).run (s := {}) after (Int.le_refl 0)
    ((numbered_append _ _ _).mp hnumbered).1
  have hstack : s ∈ (Traversal.run after {} (front ++ [t])).1.scopes :=
    List.mem_of_mem_head? hcurrent.symm
  obtain ⟨hmem, hopen⟩ := htracks.mem_stack_iff.mp hstack
  obtain ⟨a, ha, hfirst, rfl⟩ := exists_reopen hnumbered htracks hmem hopen
  have hlevel := (wellNested_events hnumbered).level a ha
  have hcount : a.reopen.level = (scopesOf (Traversal.events ((front ++ [t]) ++ after))).countP
      (·.spans a.reopen.first) := hlevel
  rw [hcount, List.countP_eq_zero]
  simp only [mem_closedScopes_events hnumbered, Bool.not_eq_true]

/-! ## Statements of the file -/

/-- A statement is the keyword of one where it was passed at the level of the file. -/
theorem exists_mem_statements_iff {events : List Event} :
    (∃ st ∈ statements tokens events, st.token = t) ↔
      isStatementKeyword tokens t = true ∧
        ∃ scope, .passed t scope ∈ events ∧ isFileLevel scope = true := by
  constructor
  · rintro ⟨st, hst, rfl⟩
    obtain ⟨e, he, hst⟩ := List.mem_filterMap.mp hst
    cases e with
    | passed u scope =>
      dsimp only at hst
      split_ifs at hst with hstatement
      cases hst
      obtain ⟨hkeyword, hlevel⟩ := Bool.and_eq_true_iff.mp hstatement
      exact ⟨hkeyword, scope, he, hlevel⟩
    | _ => cases hst
  · rintro ⟨hkeyword, scope, hpassed, hlevel⟩
    have hstatement := Bool.and_eq_true_iff.mpr ⟨hkeyword, hlevel⟩
    exact ⟨_, List.mem_filterMap.mpr ⟨_, hpassed, if_pos hstatement⟩, rfl⟩

/-- The imports and constants that a stream declares stand at the level of the file. -/
theorem exists_passed_of_mem_streamListings {l : Listing} (h : l ∈ streamListings tokens)
    (hkind : l.declaration.kind = .useKind ∨ l.declaration.kind = .constKind) :
    ∃ scope, .passed l.declaration.token scope ∈ Traversal.events tokens ∧
      isFileLevel scope = true := by
  rcases List.mem_append.mp h with h | h
  · rcases List.mem_append.mp h with h | h
    · obtain ⟨keyword, scope, -, rfl⟩ := exists_of_mem_namespaceListings h
      rcases hkind with hkind | hkind <;> cases hkind
    · obtain ⟨st, hst, h⟩ := List.mem_flatMap.mp h
      have htoken : st.token = l.declaration.token := by
        obtain ⟨-, clause, rfl⟩ | ⟨-, name, docComment, space, d, rfl⟩ :=
          exists_of_mem_statementListings h
        · rfl
        · rfl
      exact (exists_mem_statements_iff.mp ⟨st, hst, htoken⟩).2
  · obtain ⟨kind, hscoped, h⟩ := List.mem_flatMap.mp h
    obtain ⟨keyword, scope, docComment, -, -, rfl⟩ := exists_of_mem_scopedListings h
    rcases hkind with rfl | rfl <;> exact absurd hscoped (by decide)

/-- A body counts to the file only where it is the outermost scope. -/
theorem isFileLevel_body (hbody : s.IsBody) : isFileLevel (some s) = true ↔ s.level = 0 := by
  obtain ⟨kind, hkind, hbody⟩ := hbody
  have hnamespace : s.ownerKind? ≠ some .namespaceKeyword := by
    intro hnamespace
    obtain rfl : kind = .namespaceKeyword := Option.mem_unique hkind hnamespace
    exact absurd hbody (by decide)
  simp [isFileLevel, hnamespace]

/-- The imports and constants in the body of a structure or of a function are filed with those of the file
where no other scope is around the body, and nowhere else. After an open tag some scope is around each body,
until a closing brace is left without partner. -/
theorem scan_bodies (options : ScanOptions) (stream : List Token) {index : DeclarationIndex}
    (h : (scan options (number 0 stream)).outcome = .ok index)
    (hpassed : .passed t (some s) ∈ Traversal.events (number 0 stream)) (hbody : s.IsBody) :
    (s.level = 0 ↔
      ∀ a ∈ closedScopes (Traversal.events (number 0 stream)), a.spans s.first = false) ∧
    (s.level ≠ 0 → ∀ kind, kind = .useKind ∨ kind = .constKind →
      (∀ l ∈ streamListings (number 0 stream),
        l.declaration.kind = kind → l.declaration.token ≠ t) ∧
        ∀ name d, index.declaration? kind name = some d → d.token ≠ t) ∧
    (s.level = 0 → isStatementKeyword (number 0 stream) t = true →
      (t.kind = .useKeyword → ∀ clause ∈ (readUse t.line (tokensAfter (number 0 stream) t)).items,
        clause.name ∈ index.names .useKind) ∧
      (t.kind = .constKeyword →
        ∀ d ∈ (readConst t.line (lastLine (number 0 stream)) (tokensAfter (number 0 stream) t)).items,
          ∃ space, NamespaceAt (number 0 stream) t.index space ∧
            Name.join space d.name.text ∈ index.names .constKind)) ∧
    ∀ html tag before after, number 0 stream = html ++ tag :: (before ++ t :: after) →
      (∀ u ∈ html, u.kind = .inlineHtml) → tag.kind = .openTag →
        (∀ front, front <+: before ++ [t] → closings front ≤ openings front) → s.level ≠ 0 := by
  have hnumbered := numbered_number 0 stream
  refine ⟨level_eq_zero_iff hnumbered hpassed, ?_, ?_, ?_⟩
  · intro hlevel kind hkind
    have hlisted : ∀ l ∈ streamListings (number 0 stream), l.declaration.kind = kind →
        l.declaration.token ≠ t := by
      rintro l hl rfl rfl
      obtain ⟨scope, hpassed', hfile⟩ := exists_passed_of_mem_streamListings hl hkind
      obtain rfl : some s = scope := Traversal.eq_of_passed_events hnumbered hpassed hpassed'
      exact hlevel ((isFileLevel_body hbody).mp hfile)
    refine ⟨hlisted, fun name d hd => ?_⟩
    obtain ⟨l, hl, rfl, hkey⟩ := exists_listing_of_scan h hd
    exact hlisted l hl (Prod.mk.inj hkey).1
  · intro hlevel hkeyword
    obtain ⟨st, hst, rfl⟩ := exists_mem_statements_iff.mpr
      ⟨hkeyword, some s, hpassed, (isFileLevel_body hbody).mpr hlevel⟩
    have hfiled : ∀ l ∈ statementListings (number 0 stream) (namespaceScopes (number 0 stream)
        (closedScopes (Traversal.events (number 0 stream)))) st,
        l.declaration.name ∈ index.names l.declaration.kind := fun l hl =>
      mem_names_of_mem_streamListings h
        (List.mem_append_left _ (List.mem_append_right _ (List.mem_flatMap.mpr ⟨st, hst, hl⟩)))
    refine ⟨fun hkind clause hclause => ?_, fun hkind d hd => ?_⟩
    · rw [statementListings, if_pos hkind] at hfiled
      exact hfiled _ (List.mem_map.mpr ⟨clause, hclause, rfl⟩)
    · rw [statementListings, if_neg (by rw [hkind]; decide)] at hfiled
      exact ⟨_, namespaceAt_nameAt hnumbered st.token.index,
        hfiled _ (List.mem_map.mpr ⟨d, hd, rfl⟩)⟩
  · intro html tag before after hsplit hhtml htag hwaiting
    rw [hsplit] at hnumbered hpassed
    exact level_ne_of_waiting hnumbered hhtml htag hwaiting hpassed hbody

/-- The source `class A { const X = 1; }`, without an open tag. -/
def untaggedStream : List Token :=
  [⟨.classKeyword, "class", 1, 0⟩, ⟨.identifier, "A", 1, 0⟩, ⟨.punctuation, "\x7b", 1, 0⟩,
    ⟨.constKeyword, "const", 1, 0⟩, ⟨.identifier, "X", 1, 0⟩, ⟨.punctuation, "=", 1, 0⟩,
    ⟨.numberLiteral, "1", 1, 0⟩, ⟨.punctuation, ";", 1, 0⟩, ⟨.punctuation, "\x7d", 1, 0⟩]

/-- Without an open tag the constant of a class is filed as one of the file; after one it is not. -/
theorem scan_bodies_untagged : ∃ index index' : DeclarationIndex,
    (scan {} (number 0 untaggedStream)).outcome = .ok index ∧ index.names .constKind = ["X"] ∧
      (∃ space, Name.join space "X" ∈ index.names .constKind) ∧
      (scan {} (number 0 (⟨.openTag, "<?php", 1, 0⟩ :: untaggedStream))).outcome = .ok index' ∧
      ∀ name d, index'.declaration? .constKind name = some d →
        d.token ≠ ⟨.constKeyword, "const", 1, 4⟩ := by
  obtain ⟨index, hscan⟩ : ∃ index, (scan {} (number 0 untaggedStream)).outcome = .ok index :=
    exists_ok_of_isOk (by cbv)
  obtain ⟨index', hscan'⟩ : ∃ index,
      (scan {} (number 0 (⟨.openTag, "<?php", 1, 0⟩ :: untaggedStream))).outcome = .ok index :=
    exists_ok_of_isOk (by cbv)
  have hnames : index.names .constKind = ["X"] := read_of_eq_ok (·.names .constKind) hscan (by cbv)
  -- The body of the class, without and with an open tag before it.
  let body : Scope := { owner := some ⟨.classKeyword, "class", 1, 0⟩, first := 2 }
  let body' : Scope :=
    { level := 1, parent := some ⟨.openTag, "<?php", 1, 0⟩,
      owner := some ⟨.classKeyword, "class", 1, 1⟩, first := 3 }
  have hpassed : .passed ⟨.constKeyword, "const", 1, 3⟩ (some body) ∈
      Traversal.events (number 0 untaggedStream) := by decide
  have hpassed' : .passed ⟨.constKeyword, "const", 1, 4⟩ (some body') ∈
      Traversal.events (number 0 (⟨.openTag, "<?php", 1, 0⟩ :: untaggedStream)) := by decide
  have hbody : body.IsBody := ⟨.classKeyword, rfl, by decide⟩
  have hbody' : body'.IsBody := ⟨.classKeyword, rfl, by decide⟩
  have hread : (readConst 1 (lastLine (number 0 untaggedStream))
      (tokensAfter (number 0 untaggedStream) ⟨.constKeyword, "const", 1, 3⟩)).items =
      [⟨⟨.identifier, "X", 1, 4⟩, [⟨.numberLiteral, "1", 1, 6⟩]⟩] := by cbv
  obtain ⟨-, -, hleaks, -⟩ := scan_bodies {} untaggedStream hscan hpassed hbody
  obtain ⟨space, -, hmem⟩ := (hleaks rfl (by decide)).2 rfl _ (hread ▸ List.mem_singleton.mpr rfl)
  obtain ⟨-, hinert, -, -⟩ :=
    scan_bodies {} (⟨.openTag, "<?php", 1, 0⟩ :: untaggedStream) hscan' hpassed' hbody'
  exact ⟨index, index', hscan, hnames, ⟨space, hmem⟩, hscan',
    (hinert (by decide) .constKind (.inr rfl)).2⟩

end Reflection
