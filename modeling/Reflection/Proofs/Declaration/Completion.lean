import Reflection.Proofs.Constant.Escape
import Reflection.Proofs.Declaration.KeptText

/-!
# Scans that complete

A scan passes over a constant whose expression is not supported, and ends where a fault escapes from
the evaluation of one. Whether it completes is a matter of its ledger, and else of what a scan without
evaluation needs as well.

## Main definitions

* `ScanOptions.plain`: the options of a scan without evaluation.
* `statementFault?`: what is wrong with a statement.

## Main statements

* `scan_agrees`: an evaluating scan ends as its ledger does.
* `scan_completes_iff`: when an evaluating scan completes.
-/
namespace Reflection

open Token

/-- The options for a scan that takes the texts of constants for their values. -/
def ScanOptions.plain (options : ScanOptions) : ScanOptions := { options with evaluates := false }

/-- What is wrong with an import or constant statement. -/
def statementFault? (tokens : List Token) (s : Statement) : Option StatementFault :=
  if s.token.kind = .useKeyword then (readUse s.token.line (tokensAfter tokens s.token)).fault
  else (readConst s.token.line (lastLine tokens) (tokensAfter tokens s.token)).fault

/-- The constants of an index are found with what a ledger shows. -/
def DeclarationIndex.Follows (index : DeclarationIndex) (ledger : Ledger) : Prop :=
  ledger.Shows index.constant?

variable {options : ScanOptions} {tokens : List Token} {ledger : Ledger} {index : DeclarationIndex}

/-! ## Clauses -/

section

variable {σ α : Type} {add : σ → α → Report ScanFault σ} {clauses : Clauses α}

theorem outcome_addClauses_of_fault (h : clauses.fault = none) (s : σ) :
    (addClauses add s clauses).outcome =
      clauses.items.foldlM (fun s item => (add s item).outcome) s := by
  rw [← Report.outcome_foldlM]
  simp only [addClauses, h, Report.outcome_bind, Report.outcome_pure]
  exact bind_pure _

theorem fault_of_addClauses {s s' : σ} (h : (addClauses add s clauses).outcome = .ok s') :
    clauses.fault = none := by
  simp only [addClauses, Report.outcome_bind] at h
  obtain ⟨last, -, h⟩ := exists_ok_of_bind h
  split at h
  · cases h
  · assumption

end

/-! ## Statements -/

/-- A constant of an evaluating scan has its value or is kept as text, unless a fault escapes. -/
theorem outcome_constantOf (heval : options.evaluates = true) (lookup : ConstantLookup)
    (docComment : String) (d : Declarator) :
    (constantOf options lookup docComment d).outcome =
      match valueOrKept (evaluate lookup options.room d.expression) with
      | .ok value? => .ok ⟨d.name.text, value?.getD (.text (spelling d.expression)), docComment,
          spelling d.expression⟩
      | .error fault => .error (.evaluation fault) := by
  simp only [constantOf, Report.outcome_bind, Report.outcome_pure, constantValue, heval, if_true]
  cases evaluate lookup options.room d.expression with
  | ok v => rfl
  | error fault => cases fault <;> rfl

theorem Ledger.declare_eq_error {room : Nat} {site : ConstantSite} {fault : EvaluationFault}
    (h : valueOrKept (evaluate (ledger.shownTo site) room site.expression) = .error fault) :
    ledger.declare room site = .error fault := by
  rw [declare, h]
  rfl

/-- A file that declares a constant and its ledger end alike. -/
theorem fileConstant_agrees (heval : options.evaluates = true) (h : ledger.Shows index.constant?)
    (space docComment : String) (s : Statement) (d : Declarator) :
    Agree .evaluation DeclarationIndex.Follows
      ((do
        let c ← constantOf options (constantsIn space index) docComment d
        file index ⟨.constKind, Name.join space c.name, s.scope, s.token, docComment⟩
          (.constant c) : Report ScanFault DeclarationIndex).outcome)
      (ledger.declare options.room (fileSite space d)) := by
  rw [Report.outcome_bind, outcome_constantOf heval, constantsIn_eq_shownTo h space d]
  cases hvalue :
    valueOrKept (evaluate (ledger.shownTo (fileSite space d)) options.room d.expression) with
  | error fault =>
    rw [Ledger.declare_eq_error hvalue]
    rfl
  | ok value? =>
    let c : Constant :=
      ⟨d.name.text, value?.getD (.text (spelling d.expression)), docComment, spelling d.expression⟩
    have hfile : (file index ⟨.constKind, Name.join space c.name, s.scope, s.token, docComment⟩
      (.constant c)).outcome = .ok _ := rfl
    have hshown : c.value = value?.getD (.text (spelling (fileSite space d).expression)) := rfl
    obtain ⟨ledger', hdeclare, hshows⟩ := h.declare hvalue hshown (constant?_file hfile)
    rw [hdeclare]
    exact hshows

/-- Imports are filed, and leave the constants as they are. -/
theorem exists_ok_fileImports (items : List UseClause) (s : Statement)
    (h : ledger.Shows index.constant?) :
    ∃ index', items.foldlM (fun index clause =>
        (file index ⟨.useKind, clause.name, s.scope, s.token, ""⟩ (.text clause.localName)).outcome)
      index = .ok index' ∧ ledger.Shows index'.constant? := by
  induction items generalizing index with
  | nil => exact ⟨index, rfl, h⟩
  | cons clause rest ih =>
    obtain ⟨filed, hfile⟩ : ∃ filed, (file index ⟨.useKind, clause.name, s.scope, s.token, ""⟩
      (.text clause.localName)).outcome = .ok filed := ⟨_, rfl⟩
    rw [List.foldlM_cons, hfile]
    refine ih fun key => ?_
    rw [constant?_file_of_ne (by simp) hfile]
    exact h key

/-- A statement without fault and its part of the ledger end alike. -/
theorem fileStatement_agrees (heval : options.evaluates = true) {namespaces : NamespaceScopes}
    {s : Statement} (hfault : statementFault? tokens s = none)
    (h : ledger.Shows index.constant?) :
    Agree .evaluation DeclarationIndex.Follows
      (fileStatement options tokens namespaces index s).outcome
      ((statementSites tokens namespaces s).foldlM (Ledger.declare options.room) ledger) := by
  unfold statementFault? at hfault
  unfold fileStatement statementSites
  split_ifs at hfault ⊢ with huse
  · rw [fileUse, outcome_addClauses_of_fault hfault]
    obtain ⟨index', hfiled, hshows⟩ := exists_ok_fileImports
      (readUse s.token.line (tokensAfter tokens s.token)).items s h
    rw [hfiled]
    exact hshows
  · rw [fileConst, outcome_addClauses_of_fault hfault, List.foldlM_map]
    exact Agree.foldlM h fun d _ index ledger h => fileConstant_agrees heval h _ _ s d

/-- A statement that is filed has no fault. -/
theorem fault_of_fileStatement {namespaces : NamespaceScopes} {index' : DeclarationIndex}
    {s : Statement} (h : (fileStatement options tokens namespaces index s).outcome = .ok index') :
    statementFault? tokens s = none := by
  unfold fileStatement at h
  unfold statementFault?
  split_ifs at h ⊢
  · exact fault_of_addClauses h
  · exact fault_of_addClauses h

/-- Without evaluation, a statement without fault is filed. -/
theorem exists_ok_fileStatement (heval : options.evaluates = false) (namespaces : NamespaceScopes)
    (index : DeclarationIndex) {s : Statement} (hfault : statementFault? tokens s = none) :
    ∃ index', (fileStatement options tokens namespaces index s).outcome = .ok index' := by
  unfold statementFault? at hfault
  unfold fileStatement
  split_ifs at hfault ⊢
  · rw [fileUse, outcome_addClauses_of_fault hfault]
    exact exists_foldlM_of_steps (fun clause _ index => ⟨_, rfl⟩) index
  · rw [fileConst, outcome_addClauses_of_fault hfault]
    refine exists_foldlM_of_steps (fun d _ index => ?_) index
    simp only [Report.outcome_bind, constantOf, constantValue, heval]
    exact ⟨_, rfl⟩

/-! ## Functions and structures -/

/-- Whether functions and structures are filed depends on what they stand for alone. -/
theorem exists_ok_fileScoped {options' : ScanOptions} (hdefine : options'.define = options.define)
    {closed : List Scope} {namespaces : NamespaceScopes} {kinds : List DeclarationKind}
    {index' : DeclarationIndex}
    (h : (kinds.foldlM (fileScoped options tokens closed namespaces) index).outcome = .ok index')
    (start : DeclarationIndex) :
    ∃ last, (kinds.foldlM (fileScoped options' tokens closed namespaces) start).outcome =
      .ok last := by
  rw [Report.outcome_foldlM] at h ⊢
  refine exists_foldlM_of_steps (fun kind hkind found => ?_) start
  obtain ⟨before, after, hkind⟩ := exists_step_of_foldlM h kind hkind
  simp only [fileScoped, Report.outcome_foldlM, hdefine] at hkind ⊢
  refine exists_foldlM_of_steps (fun owned howned found => ?_) found
  obtain ⟨_, _, hstep⟩ := exists_step_of_foldlM hkind owned howned
  by_cases hskip : declaredName tokens owned.1 = "" ∨
      (kind = .functionKind ∧ owned.2.parentKind?.any ownsMethods)
  · rw [if_pos hskip]
    exact ⟨found, rfl⟩
  · rw [if_neg hskip, Report.outcome_bind] at hstep ⊢
    obtain ⟨definition, hdefinition, -⟩ := exists_ok_of_bind hstep
    rw [hdefinition]
    exact ⟨_, rfl⟩

/-! ## The whole scan -/

/-- Namespaces are filed in any case. -/
theorem exists_ok_fileNamespaces (tokens : List Token) (closed : List Scope) :
    ∃ index, (fileNamespaces tokens closed {}).outcome = .ok index := by
  simp only [fileNamespaces, Report.outcome_foldlM]
  refine exists_foldlM_of_steps (fun owned _ (index : DeclarationIndex) => ?_) _
  split_ifs
  · exact ⟨index, rfl⟩
  · exact ⟨_, rfl⟩

/-- After its namespaces a scan files statements, then functions and structures. -/
theorem outcome_scan
    (h : (fileNamespaces tokens (closedScopes (Traversal.events tokens)) {}).outcome = .ok index) :
    let events := Traversal.events tokens
    let closed := closedScopes events
    let namespaces := namespaceScopes tokens closed
    (scan options tokens).outcome =
      (statements tokens events).foldlM
          (fun index s => (fileStatement options tokens namespaces index s).outcome) index >>=
        fun filed =>
          (scopedKinds.foldlM (fileScoped options tokens closed namespaces) filed).outcome := by
  simp only [scan, Report.outcome_bind, Report.outcome_foldlM, h]
  rfl

/-- In a scan that completes no statement has a fault. -/
theorem faults_of_scan (h : (scan options tokens).outcome = .ok index) :
    ∀ s ∈ statements tokens (Traversal.events tokens), statementFault? tokens s = none := by
  obtain ⟨start, hstart⟩ :=
    exists_ok_fileNamespaces tokens (closedScopes (Traversal.events tokens))
  rw [outcome_scan hstart] at h
  obtain ⟨filed, hstatements, -⟩ := exists_ok_of_bind h
  intro s hs
  obtain ⟨_, _, hstep⟩ := exists_step_of_foldlM hstatements s hs
  exact fault_of_fileStatement hstep

/-- In a scan that completes functions and structures are filed, whatever was found before. -/
theorem exists_ok_scoped_of_scan (options' : ScanOptions)
    (h : (scan options tokens).outcome = .ok index) (hdefine : options'.define = options.define)
    (filed : DeclarationIndex) :
    let closed := closedScopes (Traversal.events tokens)
    ∃ last, (scopedKinds.foldlM (fileScoped options' tokens closed (namespaceScopes tokens closed))
      filed).outcome = .ok last := by
  obtain ⟨start, hstart⟩ :=
    exists_ok_fileNamespaces tokens (closedScopes (Traversal.events tokens))
  rw [outcome_scan hstart] at h
  obtain ⟨_, -, hscoped⟩ := exists_ok_of_bind h
  exact exists_ok_fileScoped hdefine hscoped filed

/-- Where a scan without evaluation completes, an evaluating scan ends as its ledger does. -/
theorem scan_agrees (heval : options.evaluates = true) {plain : DeclarationIndex}
    (hplain : (scan options.plain tokens).outcome = .ok plain) :
    Agree .evaluation (fun _ _ => True) (scan options tokens).outcome
      ((fileSites tokens).foldlM (Ledger.declare options.room) []) := by
  obtain ⟨start, hstart⟩ :=
    exists_ok_fileNamespaces tokens (closedScopes (Traversal.events tokens))
  have hshows : Ledger.Shows [] start.constant? :=
    (keptBy_shows (by simp)).fileNamespaces (fun key => rfl) hstart
  rw [outcome_scan hstart, fileSites, foldlM_flatMap_parts, ← bind_pure (List.foldlM _ [] _)]
  -- Functions and structures are filed after all constants, and whether that succeeds does not depend
  -- on what was found.
  refine Agree.bind (R := DeclarationIndex.Follows) (Agree.foldlM hshows fun s hs index ledger h =>
    fileStatement_agrees heval (faults_of_scan hplain s hs) h) fun filed ledger _ => ?_
  obtain ⟨last, hlast⟩ := exists_ok_scoped_of_scan options hplain rfl filed
  rw [hlast]
  trivial

/-- Where an evaluating scan completes, so does a scan without evaluation. -/
theorem exists_ok_scan_plain (h : (scan options tokens).outcome = .ok index) :
    ∃ plain, (scan options.plain tokens).outcome = .ok plain := by
  obtain ⟨start, hstart⟩ :=
    exists_ok_fileNamespaces tokens (closedScopes (Traversal.events tokens))
  rw [outcome_scan hstart]
  have hplain : options.plain.evaluates = false := rfl
  obtain ⟨filed, hfiled⟩ := exists_foldlM_of_steps (fun s hs index =>
    exists_ok_fileStatement hplain
      (namespaceScopes tokens (closedScopes (Traversal.events tokens))) index
      (faults_of_scan h s hs)) start
  simp only [hfiled]
  exact exists_ok_scoped_of_scan options.plain h rfl filed

/-- The faults that end a ledger are those that escape. -/
theorem valueOrKept_eq_error_iff {outcome : Except EvaluationFault Value} {fault : EvaluationFault} :
    valueOrKept outcome = .error fault ↔ outcome = .error fault ∧ fault.Escapes := by
  constructor
  · intro h
    unfold valueOrKept at h
    split at h
    · cases h
    · cases h
    · rename_i cause hcause
      cases h
      refine ⟨rfl, ?_⟩
      cases fault with
      | unsupported cause line => exact hcause cause line rfl
      | _ => trivial
  · intro ⟨h, hescapes⟩
    rw [h]
    cases fault with
    | unsupported cause line => exact hescapes.elim
    | _ => rfl

/-- The fault that ends a ledger escapes from the evaluation of one of its constants. -/
theorem escapes_of_foldlM_declare {room : Nat} {sites : List ConstantSite} {ledger : Ledger}
    {fault : EvaluationFault} (h : sites.foldlM (Ledger.declare room) ledger = .error fault) :
    fault.Escapes ∧ ∃ site ∈ sites,
      ∃ e ∈ Expression.parts room site.expression, e.MayEscape fault := by
  obtain ⟨site, hsite, found, hdeclare⟩ := exists_error_of_foldlM h
  have hvalue : valueOrKept (evaluate (found.shownTo site) room site.expression) = .error fault := by
    cases hvalue : valueOrKept (evaluate (found.shownTo site) room site.expression) with
    | ok value? =>
      rw [Ledger.declare, hvalue] at hdeclare
      cases hdeclare
    | error fault' =>
      rw [Ledger.declare_eq_error hvalue] at hdeclare
      cases hdeclare
      rfl
  obtain ⟨hevaluate, hescapes⟩ := valueOrKept_eq_error_iff.mp hvalue
  exact ⟨hescapes, site, hsite,
    escapesOnly_evaluate room site.expression fault hevaluate hescapes⟩

/-- An evaluating scan completes just where a scan without evaluation does and no fault escapes from
the evaluation of its constants, each with what is shown of those before it. Where only the evaluation
fails, its fault ends the scan. Whatever the tokens, a fault that escapes from evaluation is one of
those that are listed for the operators, the keys and the escapes of what is evaluated; for operators
and keys just those are listed that escape from some operands and from some key. -/
theorem scan_completes_iff (options : ScanOptions) (heval : options.evaluates = true)
    (tokens : List Token) :
    let run := (fileSites tokens).foldlM (Ledger.declare options.room) []
    ((∃ index, (scan options tokens).outcome = .ok index) ↔
      (∃ plain, (scan options.plain tokens).outcome = .ok plain) ∧ ∃ ledger, run = .ok ledger) ∧
    (∀ fault, run = .error fault →
      ((∃ plain, (scan options.plain tokens).outcome = .ok plain) →
        (scan options tokens).outcome = .error (.evaluation fault)) ∧
      fault.Escapes ∧
      ∃ site ∈ fileSites tokens,
        ∃ e ∈ Expression.parts options.room site.expression, e.MayEscape fault) ∧
    (∀ lookup room ts fault, evaluate lookup room ts = .error fault → fault.Escapes →
      ∃ e ∈ Expression.parts room ts, e.MayEscape fault) ∧
    (∀ (op : BinaryOp) fault, op.MayEscape fault ↔
      fault.Escapes ∧ ∃ left right, op.apply left right = .error fault) ∧
    ∀ fault : EvaluationFault, fault.AboutKey ↔
      fault.Escapes ∧ ∃ (next : Int) (v : Value), v.asKey next = .error fault := by
  intro run
  refine ⟨⟨?_, ?_⟩, ?_, ?_, fun op fault => BinaryOp.mayEscape_iff,
    fun fault => EvaluationFault.aboutKey_iff⟩
  · intro ⟨index, h⟩
    obtain ⟨plain, hplain⟩ := exists_ok_scan_plain h
    exact ⟨⟨plain, hplain⟩, (scan_agrees heval hplain).exists_ok_iff.mp ⟨index, h⟩⟩
  · intro ⟨⟨plain, hplain⟩, hrun⟩
    exact (scan_agrees heval hplain).exists_ok_iff.mpr hrun
  · intro fault hrun
    exact ⟨fun ⟨plain, hplain⟩ => (scan_agrees heval hplain).eq_error hrun,
      escapes_of_foldlM_declare hrun⟩
  · exact fun lookup room ts fault => escapesOnly_evaluate room ts fault

/-- The source `const A = 1 << -1;`. -/
def shiftTokens : List Token :=
  number 0 [⟨.openTag, "<?php", 1, 0⟩,
    ⟨.constKeyword, "const", 2, 0⟩, ⟨.identifier, "A", 2, 0⟩, ⟨.punctuation, "=", 2, 0⟩,
    ⟨.numberLiteral, "1", 2, 0⟩, ⟨.punctuation, "<<", 2, 0⟩, ⟨.punctuation, "-", 2, 0⟩,
    ⟨.numberLiteral, "1", 2, 0⟩, ⟨.punctuation, ";", 2, 0⟩]

/-- A negative shift ends a scan that completes without evaluation. -/
theorem scan_completes_iff_shiftTokens :
    (∃ plain, (scan {} shiftTokens).outcome = .ok plain) ∧
      (scan { evaluates := true } shiftTokens).outcome = .error (.evaluation .negativeShift) := by
  have hrun : (fileSites shiftTokens).foldlM (Ledger.declare 32) [] = .error .negativeShift := by cbv
  have hplain : ∃ plain, (scan {} shiftTokens).outcome = .ok plain := by
    have houtcome : (scan {} shiftTokens).outcome.isOk := by cbv
    cases hscan : (scan {} shiftTokens).outcome with
    | error fault =>
      rw [hscan] at houtcome
      cases houtcome
    | ok plain => exact ⟨plain, rfl⟩
  exact ⟨hplain,
    ((scan_completes_iff { evaluates := true } rfl shiftTokens).2.1 _ hrun).1 hplain⟩

end Reflection
