import Mathlib.Data.List.Infix
import Mathlib.Data.List.TakeWhile
import Mathlib.Tactic.SplitIfs
import Reflection.Text.Blank
import Reflection.Text.Line

/-!
# Lines and trimmed texts

Texts on one line, each ended by a line feed, are the lines of what they make up together, and a line
of a text is a part of it that no boundary divides. A trimmed text has nothing to trim at its ends, and
it is what trimming leaves.

## Main definitions

* `IsOneLine`: no character ends a line.
* `IsTrimmed`: no character at either end is to be trimmed.
* `unlines`: lines, each ended by a line feed.

## Main statements

* `lines_unlines_append`, `lines_intercalate`: the lines of a text made of lines.
* `mem_lines`: what the lines of a text are.
* `isTrimmed_trim`, `trim_of_isTrimmed`: what trimming leaves.
-/
namespace Reflection.Text

/-- A text on one line, with no character that ends a line. -/
def IsOneLine (cs : List Char) : Prop := ∀ c ∈ cs, isLineBoundary c = false

instance (cs : List Char) : Decidable (IsOneLine cs) :=
  List.decidableBAll _ cs

/-- A text without characters that satisfy `p` at either end. -/
structure IsTrimmed (p : Char → Bool) (cs : List Char) : Prop where
  head : ∀ c ∈ cs.head?, p c = false
  last : ∀ c ∈ cs.getLast?, p c = false

instance (p : Char → Bool) (cs : List Char) : Decidable (IsTrimmed p cs) :=
  decidable_of_iff (cs.head?.all (!p ·) = true ∧ cs.getLast?.all (!p ·) = true) <| by
    simp only [Option.all_eq_true, Bool.not_eq_true']
    exact ⟨fun h => ⟨h.1, h.2⟩, fun h => ⟨h.head, h.last⟩⟩

/-- Lines, each ended by a line feed. -/
def unlines (ls : List String) : List Char := ls.flatMap (·.toList ++ ['\n'])

/-! ## Lines -/

section

variable {cs current rest : List Char} {c : Char} {ls : List String}

@[simp] theorem isOneLine_nil : IsOneLine [] := nofun

@[simp] theorem isOneLine_cons :
    IsOneLine (c :: cs) ↔ isLineBoundary c = false ∧ IsOneLine cs := List.forall_mem_cons

@[simp] theorem isOneLine_append {ds : List Char} :
    IsOneLine (cs ++ ds) ↔ IsOneLine cs ∧ IsOneLine ds := List.forall_mem_append

theorem IsOneLine.of_isInfix {ds : List Char} (h : IsOneLine cs) (hpart : ds <:+: cs) :
    IsOneLine ds := fun c hc => h c (hpart.subset hc)

/-- Every character that ends a line is blank. -/
theorem isBlank_of_isLineBoundary (h : isLineBoundary c = true) : isBlank c = true := by
  simp only [isLineBoundary, Bool.or_eq_true, Bool.and_eq_true, decide_eq_true_eq, beq_iff_eq] at h
  simp only [isBlank, isSpace, spaceRanges, CodeRanges.has, List.any_cons, List.any_nil,
    Bool.or_eq_true, Bool.and_eq_true, decide_eq_true_eq]
  omega

theorem forall_isBlank_space : ∀ c ∈ [' '], isBlank c = true :=
  List.forall_mem_singleton.mpr (by decide)

/-- Letters and digits are not blank. -/
theorem isBlank_of_isAlphanum (h : c.isAlphanum = true) : isBlank c = false := by
  have hcode : (0x30 ≤ c.toNat ∧ c.toNat ≤ 0x39) ∨ (0x41 ≤ c.toNat ∧ c.toNat ≤ 0x5A) ∨
      (0x61 ≤ c.toNat ∧ c.toNat ≤ 0x7A) := by
    rcases Bool.or_eq_true_iff.mp h with halpha | hdigit
    · rcases Bool.or_eq_true_iff.mp halpha with hupper | hlower
      · obtain ⟨hlow, hhigh⟩ := of_decide_eq_true hupper
        exact .inr (.inl ⟨UInt32.le_iff_toNat_le.mp hlow, UInt32.le_iff_toNat_le.mp hhigh⟩)
      · obtain ⟨hlow, hhigh⟩ := Bool.and_eq_true_iff.mp hlower
        exact .inr (.inr ⟨UInt32.le_iff_toNat_le.mp (of_decide_eq_true hlow),
          UInt32.le_iff_toNat_le.mp (of_decide_eq_true hhigh)⟩)
    · obtain ⟨hlow, hhigh⟩ := Bool.and_eq_true_iff.mp hdigit
      exact .inl ⟨UInt32.le_iff_toNat_le.mp (of_decide_eq_true hlow),
        UInt32.le_iff_toNat_le.mp (of_decide_eq_true hhigh)⟩
  simp only [isBlank, isSpace, spaceRanges, CodeRanges.has, List.any_cons, List.any_nil,
    Bool.or_false, Bool.or_eq_false_iff, Bool.and_eq_false_iff, decide_eq_false_iff_not]
  omega

/-- The characters of names are not blank. -/
theorem isBlank_of_nameCharacter (h : (c.isAlpha || c == '_' || c.isDigit) = true) :
    isBlank c = false := by
  simp only [Bool.or_eq_true, beq_iff_eq] at h
  rcases h with (halpha | rfl) | hdigit
  · exact isBlank_of_isAlphanum (Bool.or_eq_true_iff.mpr (.inl halpha))
  · decide
  · exact isBlank_of_isAlphanum (Bool.or_eq_true_iff.mpr (.inr hdigit))

/-- A text without blanks is on one line. -/
theorem isOneLine_of_not_isBlank (h : ∀ c ∈ cs, isBlank c = false) : IsOneLine cs := by
  intro c hc
  refine Bool.eq_false_iff.mpr fun hboundary => ?_
  exact Bool.false_ne_true ((h c hc).symm.trans (isBlank_of_isLineBoundary hboundary))

@[simp] theorem linesFrom_nil : linesFrom [] [] = [] := rfl

theorem linesFrom_cons (h : isLineBoundary c = false) :
    linesFrom current (c :: rest) = linesFrom (c :: current) rest := by
  rw [linesFrom, h]
  · rfl
  · rintro _ rfl _
    exact Bool.false_ne_true (h.symm.trans (by decide))

theorem linesFrom_newline :
    linesFrom current ('\n' :: rest) = String.ofList current.reverse :: linesFrom [] rest := by
  rw [linesFrom]
  · rfl
  · exact nofun

/-- A line goes on to the line feed that ends it. -/
theorem linesFrom_line (h : IsOneLine cs) :
    linesFrom current (cs ++ '\n' :: rest) =
      String.ofList (current.reverse ++ cs) :: linesFrom [] rest := by
  induction cs generalizing current with
  | nil => rw [List.nil_append, linesFrom_newline, List.append_nil]
  | cons c cs ih =>
    obtain ⟨hc, hcs⟩ := isOneLine_cons.mp h
    rw [List.cons_append, linesFrom_cons hc, ih hcs, List.reverse_cons, List.append_assoc,
      List.singleton_append]

/-- The last line need not be ended. -/
theorem linesFrom_lastLine (h : IsOneLine cs) (hne : current ≠ [] ∨ cs ≠ []) :
    linesFrom current cs = [String.ofList (current.reverse ++ cs)] := by
  induction cs generalizing current with
  | nil =>
    have hcurrent : current ≠ [] := hne.resolve_right (fun h => h rfl)
    rw [linesFrom, if_neg (by simpa using hcurrent), List.append_nil]
  | cons c cs ih =>
    obtain ⟨hc, hcs⟩ := isOneLine_cons.mp h
    rw [linesFrom_cons hc, ih hcs (.inl (List.cons_ne_nil c current)), List.reverse_cons,
      List.append_assoc, List.singleton_append]

@[simp] theorem unlines_nil : unlines [] = [] := rfl

@[simp] theorem unlines_cons (l : String) :
    unlines (l :: ls) = l.toList ++ '\n' :: unlines ls := by
  rw [unlines, List.flatMap_cons, List.append_assoc]
  rfl

@[simp] theorem unlines_append (ls' : List String) :
    unlines (ls ++ ls') = unlines ls ++ unlines ls' := List.flatMap_append

/-- Lines that are ended each are lines of the text that they begin. -/
theorem lines_unlines_append (h : ∀ l ∈ ls, IsOneLine l.toList) :
    linesFrom [] (unlines ls ++ rest) = ls ++ linesFrom [] rest := by
  induction ls with
  | nil => rfl
  | cons l ls ih =>
    obtain ⟨hl, hls⟩ := List.forall_mem_cons.mp h
    rw [unlines_cons, List.append_assoc, List.cons_append, linesFrom_line hl, ih hls,
      List.reverse_nil, List.nil_append, String.ofList_toList, List.cons_append]

theorem intercalate_concat (ls : List String) (l : String) :
    ("\n".intercalate (ls ++ [l])).toList = unlines ls ++ l.toList := by
  rw [String.toList_intercalate]
  induction ls with
  | nil => exact List.intercalate_singleton
  | cons l' ls ih =>
    obtain ⟨next, tail, htail⟩ : ∃ next tail, ls ++ [l] = next :: tail :=
      List.exists_cons_of_ne_nil (by simp)
    rw [List.cons_append, htail, List.map_cons, List.map_cons, List.intercalate_cons_cons,
      ← List.map_cons, ← htail, ih, unlines_cons, List.append_assoc, List.append_assoc]
    rfl

/-- The lines of a text made of lines with line feeds between them, the last of which is not empty. -/
theorem lines_intercalate {l : String} (h : ∀ l' ∈ ls, IsOneLine l'.toList)
    (hl : IsOneLine l.toList) (hne : l ≠ "") :
    lines ("\n".intercalate (ls ++ [l])) = ls ++ [l] := by
  have hnil : l.toList ≠ [] := mt String.toList_eq_nil_iff.mp hne
  rw [lines, intercalate_concat, lines_unlines_append h,
    linesFrom_lastLine hl (.inr hnil), List.reverse_nil, List.nil_append, String.ofList_toList]

/-- A line is on one line and stands in the text as it is. -/
theorem mem_linesFrom {l : String} (hcurrent : IsOneLine current)
    (h : l ∈ linesFrom current cs) :
    IsOneLine l.toList ∧ l.toList <:+: current.reverse ++ cs := by
  have hreverse {ds : List Char} (hds : IsOneLine ds) : IsOneLine ds.reverse := fun c hc =>
    hds c (List.mem_reverse.mp hc)
  fun_induction linesFrom current cs with
  | case1 => exact absurd h List.not_mem_nil
  | case2 current _ =>
    rw [List.mem_singleton.mp h, String.toList_ofList, List.append_nil]
    exact ⟨hreverse hcurrent, List.infix_rfl⟩
  | case3 current rest ih =>
    rcases List.mem_cons.mp h with rfl | hrest
    · rw [String.toList_ofList]
      exact ⟨hreverse hcurrent, (List.prefix_append _ _).isInfix⟩
    · obtain ⟨hone, hpart⟩ := ih isOneLine_nil hrest
      exact ⟨hone, hpart.trans ⟨current.reverse ++ ['\r', '\n'], [], by simp⟩⟩
  | case4 current c rest _ _ ih =>
    rcases List.mem_cons.mp h with rfl | hrest
    · rw [String.toList_ofList]
      exact ⟨hreverse hcurrent, (List.prefix_append _ _).isInfix⟩
    · obtain ⟨hone, hpart⟩ := ih isOneLine_nil hrest
      exact ⟨hone, hpart.trans ⟨current.reverse ++ [c], [], by simp⟩⟩
  | case5 current c rest _ hc ih =>
    obtain ⟨hone, hpart⟩ :=
      ih (isOneLine_cons.mpr ⟨Bool.eq_false_iff.mpr hc, hcurrent⟩) h
    rw [List.reverse_cons, List.append_assoc, List.singleton_append] at hpart
    exact ⟨hone, hpart⟩

theorem mem_lines {l s : String} (h : l ∈ lines s) :
    IsOneLine l.toList ∧ l.toList <:+: s.toList :=
  mem_linesFrom isOneLine_nil h

end

/-! ## Trimmed texts -/

section

variable {p : Char → Bool} {cs ds : List Char}

/-- Characters that are not dropped at the start stay there. -/
theorem dropWhile_of_head (h : ∀ c ∈ cs.head?, p c = false) : cs.dropWhile p = cs := by
  cases cs with
  | nil => rfl
  | cons c cs => exact List.dropWhile_cons_of_neg (by simp [h c rfl])

theorem head_dropWhile (c : Char) (h : c ∈ (cs.dropWhile p).head?) : p c = false := by
  have hnot := List.head?_dropWhile_not p cs
  rw [Option.mem_def.mp h] at hnot
  exact hnot

theorem eq_false_of_all (h : cs.all (!p ·) = true) : ∀ c ∈ cs, p c = false := by
  simpa using h

/-- A run of characters ends where the next one is of another kind. -/
theorem span_append (hcs : ∀ c ∈ cs, p c = true) (hds : ∀ c ∈ ds.head?, p c = false) :
    (cs ++ ds).takeWhile p = cs ∧ (cs ++ ds).dropWhile p = ds := by
  have htake : ds.takeWhile p = [] := by
    cases ds with
    | nil => rfl
    | cons d ds => exact List.takeWhile_cons_of_neg (by simp [hds d rfl])
  rw [List.takeWhile_append_of_pos hcs, List.dropWhile_append_of_pos hcs, htake, List.append_nil,
    dropWhile_of_head hds]
  exact ⟨rfl, rfl⟩

theorem dropTrailing_of_last (h : ∀ c ∈ cs.getLast?, p c = false) : dropTrailing p cs = cs := by
  rw [dropTrailing, dropWhile_of_head (by simpa using h), List.reverse_reverse]

theorem last_dropTrailing (c : Char) (h : c ∈ (dropTrailing p cs).getLast?) : p c = false := by
  rw [dropTrailing, List.getLast?_reverse] at h
  exact head_dropWhile c h

theorem isPrefix_dropTrailing (p : Char → Bool) (cs : List Char) : dropTrailing p cs <+: cs := by
  rw [← List.reverse_suffix, dropTrailing, List.reverse_reverse]
  exact List.dropWhile_suffix p

/-- The first character of a text is that of its nonempty fronts. -/
theorem head_of_isPrefix (hfront : ds <+: cs) (h : ∀ c ∈ cs.head?, p c = false) :
    ∀ c ∈ ds.head?, p c = false := by
  obtain ⟨rest, rfl⟩ := hfront
  cases ds with
  | nil => exact nofun
  | cons d ds => exact h

/-- The last character of a text is that of its nonempty ends. -/
theorem last_of_isSuffix (hsuffix : ds <:+ cs) (h : ∀ c ∈ cs.getLast?, p c = false) :
    ∀ c ∈ ds.getLast?, p c = false := by
  rw [← List.head?_reverse] at h ⊢
  exact head_of_isPrefix (List.reverse_prefix.mpr hsuffix) h

theorem toList_trim (s : String) :
    (trim p s).toList = dropTrailing p (s.toList.dropWhile p) := by
  simp only [trim, trimEnd, trimStart, String.toList_ofList]

/-- What trimming leaves is trimmed. -/
theorem isTrimmed_trim (p : Char → Bool) (s : String) : IsTrimmed p (trim p s).toList := by
  rw [toList_trim]
  exact ⟨head_of_isPrefix (isPrefix_dropTrailing p _) head_dropWhile, last_dropTrailing⟩

/-- A trimmed text stays as it is. -/
theorem trim_of_isTrimmed {s : String} (h : IsTrimmed p s.toList) : trim p s = s := by
  rw [← String.toList_inj, toList_trim, dropWhile_of_head h.head, dropTrailing_of_last h.last]

/-- Trimming takes away what surrounds a trimmed text. -/
theorem toList_trim_surrounded {s : String} {front back : List Char} (hs : s.toList = front ++ cs ++ back)
    (hfront : ∀ c ∈ front, p c = true) (hback : ∀ c ∈ back, p c = true) (h : IsTrimmed p cs) :
    (trim p s).toList = cs := by
  rw [toList_trim, hs, List.append_assoc, List.dropWhile_append_of_pos hfront]
  cases cs with
  | nil =>
    rw [List.nil_append, List.dropWhile_eq_nil_iff.mpr hback]
    rfl
  | cons c cs =>
    rw [List.cons_append, List.dropWhile_cons_of_neg (by simp [h.head c rfl]), ← List.cons_append,
      dropTrailing, List.reverse_append, List.dropWhile_append_of_pos
        (fun d hd => hback d (List.mem_reverse.mp hd))]
    exact dropTrailing_of_last h.last

/-- What trimming leaves is a part of the text. -/
theorem isInfix_trim (p : Char → Bool) (s : String) : (trim p s).toList <:+: s.toList := by
  rw [toList_trim]
  exact (isPrefix_dropTrailing p _).isInfix.trans (List.dropWhile_suffix p).isInfix

/-- Trimmed texts stay trimmed when something is put between them. -/
theorem IsTrimmed.append {between : List Char} (hcs : IsTrimmed p cs) (hds : IsTrimmed p ds)
    (hcsne : cs ≠ []) (hdsne : ds ≠ []) : IsTrimmed p (cs ++ between ++ ds) where
  head := by
    rw [List.append_assoc, List.head?_append_of_ne_nil cs hcsne]
    exact hcs.head
  last := by
    rw [List.getLast?_append_of_ne_nil _ hdsne]
    exact hds.last

end

end Reflection.Text
