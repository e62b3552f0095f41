import Reflection.Proofs.Declaration.Redefinition

/-!
# Evaluation changes the values of constants alone

A scan that evaluates and one that does not file the same declarations. Evaluation reads the index
while it is filled, but only to find values, so where it completes the two indexes differ in the values
of constants and in nothing else. The same holds of the constants of a structure.

## Main definitions

* `Constant.asText`: a constant that is not evaluated.

## Main statements

* `scan_plain`: an evaluating scan and a scan without evaluation.
-/
namespace Reflection

open Token

variable {options : ScanOptions} {tokens : List Token}

/-- The constant with the text of its expression for its value. -/
def Constant.asText (c : Constant) : Constant := { c with value := .text c.expression }

/-- What a name of a kind stands for where constants are not evaluated. -/
def Definition.asText (kind : DeclarationKind) (v : Definition) : Definition :=
  match kind, v with
  | .constKind, .constant c => .constant c.asText
  | _, v => v

theorem Definition.asText_of_ne {kind : DeclarationKind} (hkind : kind ≠ .constKind)
    (v : Definition) : asText kind v = v := by
  cases kind with
  | constKind => exact absurd rfl hkind
  | _ => rfl

/-- Constants that are not evaluated, under the same names. -/
def constantsAsText (constants : Table String Constant) : Table String Constant :=
  Table.mapValues (fun _ c => c.asText) constants

/-- Without evaluation a constant is read in any case, whatever is known of other ones. -/
theorem outcome_constantOf_plain {lookup : ConstantLookup} {docComment : String} {d : Declarator}
    {c : Constant} (h : (constantOf options lookup docComment d).outcome = .ok c)
    (lookup' : ConstantLookup) :
    (constantOf options.plain lookup' docComment d).outcome = .ok c.asText := by
  rw [constantOf, Report.outcome_bind] at h
  obtain ⟨value, -, h⟩ := exists_ok_of_bind h
  cases h
  rfl

/-! ## The index -/

/-- Without evaluation a declaration gets the definition that evaluation gives it, up to the value of
a constant. -/
theorem define_plain {l : Listing} (hsorted : l.WellSorted) {index : DeclarationIndex}
    {v : Definition} (h : (l.define options index).outcome = .ok v) (index' : DeclarationIndex) :
    (l.define options.plain index').outcome = .ok (v.asText l.declaration.kind) := by
  unfold Listing.define at h ⊢
  unfold Listing.WellSorted at hsorted
  cases hmeaning : l.meaning with
  | text s =>
    rw [hmeaning] at h hsorted
    cases h
    rw [Definition.asText_of_ne (by rcases hsorted with hkind | hkind <;> simp [hkind])]
    rfl
  | constant space d =>
    rw [hmeaning] at h hsorted
    dsimp only at h hsorted ⊢
    rw [Report.outcome_bind] at h ⊢
    obtain ⟨c, hc, h⟩ := exists_ok_of_bind h
    cases h
    rw [outcome_constantOf_plain hc, hsorted]
    rfl
  | symbol =>
    rw [hmeaning] at h hsorted
    have hkind : l.declaration.kind ≠ .constKind := by
      rintro hkind
      rw [hkind] at hsorted
      exact absurd hsorted (by decide)
    rw [Definition.asText_of_ne hkind]
    exact h

/-- The names of constants stand for constants. -/
theorem exists_constant_of_define {l : Listing} (hsorted : l.WellSorted) {index : DeclarationIndex}
    {v : Definition} (h : (l.define options index).outcome = .ok v)
    (hkind : l.declaration.kind = .constKind) : ∃ c, v = .constant c := by
  unfold Listing.define at h
  unfold Listing.WellSorted at hsorted
  cases hmeaning : l.meaning with
  | text s => simp [hmeaning, hkind] at hsorted
  | constant space d =>
    rw [hmeaning] at h
    dsimp only at h
    rw [Report.outcome_bind] at h
    obtain ⟨c, -, h⟩ := exists_ok_of_bind h
    cases h
    exact ⟨c, rfl⟩
  | symbol => simp [hmeaning, hkind, scopedKinds] at hsorted

/-- In the index of a scan the names of constants stand for constants. -/
theorem exists_constant_of_scan {index : DeclarationIndex}
    (h : (scan options tokens).outcome = .ok index) {name : String} {v : Definition}
    (hv : index.value? .constKind name = some v) : ∃ c, v = .constant c := by
  rw [outcome_scan_of_completed h options] at h
  refine value?_fileAll (P := fun kind _ v => kind = .constKind → ∃ c, v = .constant c)
    (fun l hl index v hdefine => ?_) (fun kind name v hv => by cases hv) h .constKind name v hv rfl
  exact exists_constant_of_define (wellSorted_streamListings l hl) hdefine

/-- Where a scan completes, a scan without evaluation gives its index without the values of
constants. -/
theorem outcome_scan_plain {index : DeclarationIndex}
    (h : (scan options tokens).outcome = .ok index) :
    (scan options.plain tokens).outcome =
      .ok (index.redefine fun kind _ v => v.asText kind) := by
  rw [outcome_scan_of_completed h options.plain]
  rw [outcome_scan_of_completed h options] at h
  exact fileAll_redefine
    (fun l hl index v hdefine => define_plain (wellSorted_streamListings l hl) hdefine _) h

/-! ## Constants of structures -/

/-- A fold over the constants of a structure without evaluation follows one with it if its steps do. -/
theorem outcome_foldlM_constantsAsText {ε α : Type}
    {f g : Table String Constant → α → Report ε (Table String Constant)}
    {constants constants' : Table String Constant} {xs : List α}
    (h : (xs.foldlM f constants).outcome = .ok constants')
    (hstep : ∀ constants x constants', (f constants x).outcome = .ok constants' →
      (g (constantsAsText constants) x).outcome = .ok (constantsAsText constants')) :
    xs.foldlM (fun constants x => (g constants x).outcome) (constantsAsText constants) =
      .ok (constantsAsText constants') := by
  obtain ⟨plain, hrun, rfl⟩ := Report.exists_foldlM_of_step
    (R := fun constants plain => plain = constantsAsText constants)
    (g := fun constants x => (g constants x).outcome) rfl h
    fun constants plain x constants' hplain hx =>
      ⟨_, by rw [hplain]; exact hstep constants x constants' hx, rfl⟩
  exact hrun

/-- A step of the scan of a structure without evaluation follows the one with it. -/
theorem structureStep_plain {constants constants' : Table String Constant} {event : Event}
    (h : (structureStep options tokens constants event).outcome = .ok constants') :
    (structureStep options.plain tokens (constantsAsText constants) event).outcome =
      .ok (constantsAsText constants') := by
  cases event with
  | passed t scope =>
    unfold structureStep at h ⊢
    dsimp only at h ⊢
    split_ifs at h ⊢
    · rw [outcome_addClauses_of_fault (fault_of_addClauses h)]
      refine outcome_foldlM_constantsAsText (outcome_addClauses h) ?_
      intro constants d constants' hstep
      rw [Report.outcome_bind] at hstep ⊢
      obtain ⟨c, hc, hstep⟩ := exists_ok_of_bind hstep
      cases hstep
      rw [outcome_constantOf_plain hc, constantsAsText, constantsAsText, Table.mapValues_insert]
      rfl
    · cases h
      rfl
  | _ =>
    cases h
    rfl

/-- Where the constants of a structure can be read with evaluation, they can without it, and differ
in their values alone. -/
theorem scanStructureConstants_plain {s : Scope} {constants : Table String Constant}
    (h : (scanStructureConstants options tokens s).outcome = .ok constants) :
    (scanStructureConstants options.plain tokens s).outcome = .ok (constantsAsText constants) := by
  unfold scanStructureConstants at h ⊢
  split at h
  · split_ifs at h ⊢
    · cases h
      rfl
    · rw [Report.outcome_foldlM]
      exact outcome_foldlM_constantsAsText h fun constants event constants' hstep =>
        structureStep_plain hstep
  · cases h
    rfl

/-! ## Both -/

/-- Evaluation changes the values of constants and nothing else. Where a scan completes, a scan
without evaluation completes too. The two indexes have the same names of each kind in the same order
with the same declarations, and names that are not those of constants stand for the same. The names of
constants stand for constants that differ in their values alone, these being the texts of their
expressions where nothing is evaluated. The constants in the scope of a structure, whatever it is,
correspond in the same way. -/
theorem scan_plain (options : ScanOptions) (tokens : List Token) :
    (∀ index, (scan options tokens).outcome = .ok index →
      ∃ plain, (scan options.plain tokens).outcome = .ok plain ∧
        (∀ kind, plain.names kind = index.names kind) ∧
        (∀ kind name, plain.declaration? kind name = index.declaration? kind name) ∧
        (∀ kind name, kind ≠ .constKind → plain.value? kind name = index.value? kind name) ∧
        ∀ name v, index.value? .constKind name = some v →
          ∃ c, v = .constant c ∧ plain.value? .constKind name = some (.constant c.asText)) ∧
    ∀ s constants, (scanStructureConstants options tokens s).outcome = .ok constants →
      (scanStructureConstants options.plain tokens s).outcome =
        .ok (constants.map fun entry => (entry.1, entry.2.asText)) := by
  refine ⟨fun index h => ?_, fun s constants h => scanStructureConstants_plain h⟩
  refine ⟨_, outcome_scan_plain h, fun kind => ?_, fun kind name => ?_, fun kind name hkind => ?_,
    fun name v hv => ?_⟩
  · rw [DeclarationIndex.names_redefine]
  · rw [DeclarationIndex.declaration?_redefine]
  · simp [Definition.asText_of_ne hkind]
  · obtain ⟨c, rfl⟩ := exists_constant_of_scan h hv
    refine ⟨c, rfl, ?_⟩
    rw [DeclarationIndex.value?_redefine, hv]
    rfl

/-- The source `const A = 1 | 2, B = X; function f { } class C { const D = 4; }`. -/
def mixedTokens : List Token :=
  number 0 [⟨.openTag, "<?php", 1, 0⟩,
    ⟨.constKeyword, "const", 2, 0⟩, ⟨.identifier, "A", 2, 0⟩, ⟨.punctuation, "=", 2, 0⟩,
    ⟨.numberLiteral, "1", 2, 0⟩, ⟨.punctuation, "|", 2, 0⟩, ⟨.numberLiteral, "2", 2, 0⟩,
    ⟨.punctuation, ",", 2, 0⟩, ⟨.identifier, "B", 2, 0⟩, ⟨.punctuation, "=", 2, 0⟩,
    ⟨.identifier, "X", 2, 0⟩, ⟨.punctuation, ";", 2, 0⟩,
    ⟨.functionKeyword, "function", 3, 0⟩, ⟨.identifier, "f", 3, 0⟩, ⟨.punctuation, "\x7b", 3, 0⟩,
    ⟨.punctuation, "\x7d", 3, 0⟩,
    ⟨.classKeyword, "class", 4, 0⟩, ⟨.identifier, "C", 4, 0⟩, ⟨.punctuation, "\x7b", 4, 0⟩,
    ⟨.constKeyword, "const", 5, 0⟩, ⟨.identifier, "D", 5, 0⟩, ⟨.punctuation, "=", 5, 0⟩,
    ⟨.numberLiteral, "4", 5, 0⟩, ⟨.punctuation, ";", 5, 0⟩, ⟨.punctuation, "\x7d", 6, 0⟩]

/-- Of the constants of the file, `A` is evaluated and `B` is kept as text; that of the class `C` is
evaluated as well. -/
theorem scan_plain_mixedTokens :
    let scope : Scope := { first := 18, last := some 24 }
    ∃ index plain a b,
      (scan { evaluates := true } mixedTokens).outcome = .ok index ∧
      (scan {} mixedTokens).outcome = .ok plain ∧
      plain.names .constKind = index.names .constKind ∧ index.names .constKind = ["A", "B"] ∧
      plain.declaration? .classKind "C" = index.declaration? .classKind "C" ∧
      plain.value? .functionKind "f" = index.value? .functionKind "f" ∧
      index.value? .constKind "A" = some (.constant a) ∧ a.value = .int 3 ∧
      plain.value? .constKind "A" = some (.constant a.asText) ∧
      index.value? .constKind "B" = some (.constant b) ∧ b.value = .text "X" ∧
      plain.value? .constKind "B" = some (.constant b.asText) ∧
      (scanStructureConstants { evaluates := true } mixedTokens scope).outcome =
        .ok [("D", ⟨"D", .int 4, "", "4"⟩)] ∧
      (scanStructureConstants {} mixedTokens scope).outcome =
        .ok [("D", ⟨"D", .text "4", "", "4"⟩)] := by
  intro scope
  obtain ⟨index, hscan⟩ : ∃ index, (scan { evaluates := true } mixedTokens).outcome = .ok index :=
    exists_ok_of_isOk (by cbv)
  have hread : (scanStructureConstants { evaluates := true } mixedTokens scope).outcome =
      .ok [("D", ⟨"D", .int 4, "", "4"⟩)] := by cbv
  obtain ⟨hindex, hstructure⟩ := scan_plain { evaluates := true } mixedTokens
  obtain ⟨plain, hplain, hnames, hdeclarations, hvalues, hconstants⟩ := hindex index hscan
  have hlisted : index.names .constKind = ["A", "B"] :=
    read_of_eq_ok (·.names .constKind) hscan (by cbv)
  have ha : index.value? .constKind "A" = some (.constant ⟨"A", .int 3, "", "1|2"⟩) :=
    read_of_eq_ok (·.value? .constKind "A") hscan (by cbv)
  have hb : index.value? .constKind "B" = some (.constant ⟨"B", .text "X", "", "X"⟩) :=
    read_of_eq_ok (·.value? .constKind "B") hscan (by cbv)
  obtain ⟨a, ha', hplainA⟩ := hconstants "A" _ ha
  obtain ⟨b, hb', hplainB⟩ := hconstants "B" _ hb
  cases ha'
  cases hb'
  exact ⟨index, plain, _, _, hscan, hplain, hnames .constKind, hlisted, hdeclarations .classKind "C",
    hvalues .functionKind "f" (by decide), ha, rfl, hplainA, hb, rfl, hplainB, hread,
    hstructure scope _ hread⟩

end Reflection
