import Mathlib
import Reflection.Proofs.Declaration.Filing
import Reflection.Proofs.Declaration.Ledger

/-!
# Source text in the place of values

A scan that evaluates constants keeps a ledger of them, both for the constants of a file and for those
of a structure. It finds every constant with what the ledger shows, so an expression that refers to a
kept constant is evaluated with the source text of that constant as its value. What the scan finds is
as it should be just where no such evaluation succeeds.

## Main definitions

* `fileSites`, `structureSites`: the constants that a scan comes by, in order.
* `Ledger.Shows`: constants are found with what a ledger shows.

## Main statements

* `scan_ledger`, `scanStructureConstants_ledger`: the ledgers of the two scans.
* `scan_honest_iff`: when the values of a scan owe nothing to source text.
-/
namespace Reflection

open Token

/-! ## The constants in order -/

/-- A constant of a file: its name is looked for in the namespace and then globally. -/
def fileSite (space : String) (d : Declarator) : ConstantSite where
  key := Name.join space d.name.text
  meanings name := [Name.join space (Name.relative name), Name.relative name]
  expression := d.expression

/-- The member of the enclosing structure that a name stands for. -/
def selfMember (name : String) : List String :=
  match ["self::", "static::"].findSome? fun owner =>
      if owner.toList.isPrefixOf name.toList then some (name.toList.drop owner.length) else none with
  | some member => [String.ofList member]
  | none => []

/-- A constant of a structure: it is referred to as a member of the structure itself. -/
def memberSite (d : Declarator) : ConstantSite where
  key := d.name.text
  meanings := selfMember
  expression := d.expression

/-- The constants of a statement of a file. -/
def statementSites (tokens : List Token) (namespaces : NamespaceScopes) (s : Statement) :
    List ConstantSite :=
  if s.token.kind = .useKeyword then []
  else
    (readConst s.token.line (lastLine tokens) (tokensAfter tokens s.token)).items.map
      (fileSite (namespaces.nameAt s.token.index))

/-- The constants that stand in no function or structure of a file. -/
def fileSites (tokens : List Token) : List ConstantSite :=
  let events := Traversal.events tokens
  (statements tokens events).flatMap
    (statementSites tokens (namespaceScopes tokens (closedScopes events)))

/-- The constants that are read at one event of the traversal of a structure. -/
def eventSites (tokens : List Token) : Event → List ConstantSite
  | .passed t scope =>
    if t.kind = .constKeyword ∧ scope.any (·.level == 0) then
      (readConst t.line (lastLine tokens) (tokensAfter tokens t)).items.map memberSite
    else []
  | _ => []

/-- The constants that stand directly in the scope of a structure. -/
def structureSites (tokens : List Token) (s : Scope) : List ConstantSite :=
  match s.last with
  | some last =>
    if s.first < 0 ∨ last < s.first then []
    else
      let range : TokenRange :=
        ⟨TokenRange.clamp tokens.length s.first, TokenRange.clamp tokens.length last⟩
      (Traversal.events (range.slice tokens)).flatMap (eventSites tokens)
  | none => []

/-! ## Ledger and store -/

/-- Constants are found with what the ledger shows. -/
def Ledger.Shows (ledger : Ledger) (found : String → Option Constant) : Prop :=
  ∀ key, (found key).map Constant.value = (ledger.find? key).map LedgerEntry.shown

variable {options : ScanOptions} {tokens : List Token} {ledger : Ledger}

/-- The constant of a declarator, as an evaluating scan gives it. -/
theorem exists_valueOrKept (heval : options.evaluates = true) {lookup : ConstantLookup}
    {docComment : String} {d : Declarator} {c : Constant}
    (h : (constantOf options lookup docComment d).outcome = .ok c) :
    ∃ value?, valueOrKept (evaluate lookup options.room d.expression) = .ok value? ∧
      c.name = d.name.text ∧ c.value = value?.getD (.text (spelling d.expression)) := by
  simp only [constantOf, Report.outcome_bind, Report.outcome_pure] at h
  obtain ⟨v, hv, hc⟩ := exists_ok_of_bind h
  cases hc
  simp only [constantValue, heval, if_true] at hv
  cases hevaluate : evaluate lookup options.room d.expression with
  | ok w =>
    rw [hevaluate] at hv
    cases hv
    exact ⟨some v, rfl, rfl, rfl⟩
  | error fault =>
    rw [hevaluate] at hv
    cases fault with
    | unsupported cause line =>
      cases hv
      exact ⟨none, rfl, rfl, rfl⟩
    | _ => cases hv

/-- A constant that is stored under its key is found with what the ledger shows of it. -/
theorem Ledger.Shows.declare {found found' : String → Option Constant} {site : ConstantSite}
    (h : ledger.Shows found) {value? : Option Value} {c : Constant}
    (hvalue : valueOrKept (evaluate (ledger.shownTo site) options.room site.expression) = .ok value?)
    (hc : c.value = value?.getD (.text (spelling site.expression)))
    (hfound : ∀ key, found' key = if site.key = key then some c else found key) :
    ∃ ledger', ledger.declare options.room site = .ok ledger' ∧ ledger'.Shows found' := by
  refine ⟨⟨site, value?⟩ :: ledger, Ledger.declare_eq_ok_iff.mpr ⟨value?, hvalue, rfl⟩, ?_⟩
  intro key
  rw [hfound, Ledger.find?_cons]
  by_cases hkey : site.key = key
  · rw [if_pos hkey, if_pos hkey, Option.map_some, Option.map_some, hc]
    rfl
  · rw [if_neg hkey, if_neg hkey, h key]

/-! ## Constants of a file -/

/-- Filing a declaration of another kind leaves the constants as they are. -/
theorem constant?_file_of_ne {index index' : DeclarationIndex} {d : Declaration}
    {definition : Definition} (hkind : d.kind ≠ .constKind)
    (h : (file index d definition).outcome = .ok index') (key : String) :
    index'.constant? key = index.constant? key := by
  have hindex : (index.add d definition).1 = index' := by simpa [file] using h
  rw [← hindex]
  simp only [DeclarationIndex.add]
  split
  · rfl
  · simp [DeclarationIndex.constant?, DeclarationIndex.value?, DeclarationIndex.find?, hkind]

/-- What a ledger shows of the constants is kept by filing declarations of other kinds. -/
theorem keptBy_shows {kind : DeclarationKind} (hkind : kind ≠ .constKind) :
    KeptBy (fun index => ledger.Shows index.constant?) kind := by
  intro index d definition hd h key
  have hfiled : (file index d definition).outcome = .ok (index.add d definition).1 := rfl
  rw [constant?_file_of_ne (hd ▸ hkind) hfiled]
  exact h key

/-- Filing a constant makes its name stand for it. -/
theorem constant?_file {index index' : DeclarationIndex} {name docComment : String} {s : Scope}
    {t : Token} {c : Constant}
    (h : (file index ⟨.constKind, name, s, t, docComment⟩ (.constant c)).outcome = .ok index')
    (key : String) : index'.constant? key = if name = key then some c else index.constant? key := by
  have hindex : (index.add ⟨.constKind, name, s, t, docComment⟩ (.constant c)).1 = index' := by
    simpa [file] using h
  rw [← hindex]
  by_cases hkey : name = key
  · simp [DeclarationIndex.add, DeclarationIndex.constant?, DeclarationIndex.value?,
      DeclarationIndex.find?, hkey]
  · simp [DeclarationIndex.add, DeclarationIndex.constant?, DeclarationIndex.value?,
      DeclarationIndex.find?, hkey]

theorem constantsIn_eq_shownTo {index : DeclarationIndex} (h : ledger.Shows index.constant?)
    (space : String) (d : Declarator) :
    constantsIn space index = ledger.shownTo (fileSite space d) := by
  funext name
  simp only [constantsIn, Ledger.shownTo, Ledger.meant?, fileSite, List.map_findSome?]
  exact congrArg (fun f => List.findSome? f _) (funext h)

/-- Files one constant of a statement. -/
def fileConstant (options : ScanOptions) (tokens : List Token) (namespaces : NamespaceScopes)
    (s : Statement) (index : DeclarationIndex) (d : Declarator) :
    Report ScanFault DeclarationIndex := do
  let space := namespaces.nameAt s.token.index
  let docComment := docCommentBefore [] (tokensBefore tokens s.token)
  let c ← constantOf options (constantsIn space index) docComment d
  file index ⟨.constKind, Name.join space c.name, s.scope, s.token, docComment⟩ (.constant c)

/-- The constants of a statement are filed one after the other. -/
theorem foldlM_fileConstant {namespaces : NamespaceScopes} {index index' : DeclarationIndex}
    {s : Statement} (h : (fileConst options tokens namespaces index s).outcome = .ok index') :
    ((readConst s.token.line (lastLine tokens) (tokensAfter tokens s.token)).items.foldlM
      (fileConstant options tokens namespaces s) index).outcome = .ok index' :=
  outcome_addClauses h

/-- A constant is found with what the ledger shows of it. -/
theorem fileConstant_ledger (heval : options.evaluates = true) {namespaces : NamespaceScopes}
    {index index' : DeclarationIndex} {s : Statement} {d : Declarator}
    (h : ledger.Shows index.constant?)
    (hfile : (fileConstant options tokens namespaces s index d).outcome = .ok index') :
    ∃ ledger', ledger.declare options.room (fileSite (namespaces.nameAt s.token.index) d) =
      .ok ledger' ∧ ledger'.Shows index'.constant? := by
  simp only [fileConstant, Report.outcome_bind] at hfile
  obtain ⟨c, hc, hfiled⟩ := exists_ok_of_bind hfile
  obtain ⟨value?, hvalue, hname, hshown⟩ := exists_valueOrKept heval hc
  rw [constantsIn_eq_shownTo h _ d] at hvalue
  rw [hname] at hfiled
  exact h.declare hvalue hshown (constant?_file hfiled)

/-- The constants of a statement are found with what the ledger shows of them. -/
theorem fileConst_ledger (heval : options.evaluates = true) {namespaces : NamespaceScopes}
    {index index' : DeclarationIndex} {s : Statement} (h : ledger.Shows index.constant?)
    (hfile : (fileConst options tokens namespaces index s).outcome = .ok index') :
    ∃ ledger', ((readConst s.token.line (lastLine tokens) (tokensAfter tokens s.token)).items.map
        (fileSite (namespaces.nameAt s.token.index))).foldlM (Ledger.declare options.room) ledger =
          .ok ledger' ∧ ledger'.Shows index'.constant? := by
  rw [List.foldlM_map]
  exact Report.exists_foldlM_of_step
    (R := fun (index : DeclarationIndex) (ledger : Ledger) => ledger.Shows index.constant?) h
    (foldlM_fileConstant hfile) fun index ledger d index' h hstep => fileConstant_ledger heval h hstep

/-- A statement leaves the constants to be found with what the ledger shows. -/
theorem fileStatement_ledger (heval : options.evaluates = true) {namespaces : NamespaceScopes}
    {index index' : DeclarationIndex} {s : Statement} (h : ledger.Shows index.constant?)
    (hfile : (fileStatement options tokens namespaces index s).outcome = .ok index') :
    ∃ ledger', (statementSites tokens namespaces s).foldlM (Ledger.declare options.room) ledger =
      .ok ledger' ∧ ledger'.Shows index'.constant? := by
  by_cases huse : s.token.kind = .useKeyword
  · simp only [fileStatement, huse, if_true] at hfile
    simp only [statementSites, huse, if_true]
    exact ⟨ledger, rfl, (keptBy_shows (by simp)).fileUse h hfile⟩
  · simp only [fileStatement, huse, if_false] at hfile
    simp only [statementSites, huse, if_false]
    exact fileConst_ledger heval h hfile

/-- An evaluating scan of a file keeps a ledger of its constants. -/
theorem scan_ledger (heval : options.evaluates = true) {index : DeclarationIndex}
    (h : (scan options tokens).outcome = .ok index) :
    ∃ ledger, (fileSites tokens).foldlM (Ledger.declare options.room) [] = .ok ledger ∧
      ledger.Shows index.constant? := by
  simp only [scan, Report.outcome_bind] at h
  obtain ⟨-, -, h⟩ := exists_ok_of_bind h
  obtain ⟨afterNamespaces, hnamespaces, h⟩ := exists_ok_of_bind h
  obtain ⟨afterStatements, hstatements, hscoped⟩ := exists_ok_of_bind h
  have hstart : Ledger.Shows [] ({} : DeclarationIndex).constant? := fun key => rfl
  obtain ⟨ledger, hrun, hshows⟩ := Report.exists_foldlM_of_step
    (R := fun (index : DeclarationIndex) (ledger : Ledger) => ledger.Shows index.constant?)
    ((keptBy_shows (by simp)).fileNamespaces hstart hnamespaces) hstatements
    fun index ledger s index' h hstep => fileStatement_ledger heval h hstep
  refine ⟨ledger, ?_, ?_⟩
  · rw [fileSites, foldlM_flatMap_parts]
    exact hrun
  · simp only [scopedKinds, List.foldlM_cons, List.foldlM_nil, Report.outcome_bind] at hscoped
    obtain ⟨_, hfunctions, hscoped⟩ := exists_ok_of_bind hscoped
    obtain ⟨_, hinterfaces, hscoped⟩ := exists_ok_of_bind hscoped
    obtain ⟨_, htraits, hscoped⟩ := exists_ok_of_bind hscoped
    obtain ⟨_, hclasses, hscoped⟩ := exists_ok_of_bind hscoped
    cases hscoped
    have hkept {kind : DeclarationKind} (hkind : kind ≠ .constKind) :
        KeptBy (fun index => ledger.Shows index.constant?) kind := keptBy_shows hkind
    have hafterFunctions := (hkept (by simp)).fileScoped hshows hfunctions
    have hafterInterfaces := (hkept (by simp)).fileScoped hafterFunctions hinterfaces
    have hafterTraits := (hkept (by simp)).fileScoped hafterInterfaces htraits
    exact (hkept (by simp)).fileScoped hafterTraits hclasses

/-! ## Constants of a structure -/

theorem constantsOfSelf_eq_shownTo {constants : Table String Constant}
    (h : ledger.Shows (Table.find? constants)) (d : Declarator) :
    constantsOfSelf constants = ledger.shownTo (memberSite d) := by
  funext name
  simp only [constantsOfSelf, Ledger.shownTo, Ledger.meant?, memberSite, selfMember]
  generalize (["self::", "static::"].findSome? fun owner =>
    if owner.toList.isPrefixOf name.toList then some (name.toList.drop owner.length)
    else none) = found
  cases found with
  | none => rfl
  | some member =>
    simp only [List.findSome?_singleton]
    exact h _

/-- An event of the traversal of a structure leaves the constants to be found with what the ledger
shows. -/
theorem structureStep_ledger (heval : options.evaluates = true)
    {constants constants' : Table String Constant} {event : Event}
    (h : ledger.Shows (Table.find? constants))
    (hstep : (structureStep options tokens constants event).outcome = .ok constants') :
    ∃ ledger', (eventSites tokens event).foldlM (Ledger.declare options.room) ledger =
      .ok ledger' ∧ ledger'.Shows (Table.find? constants') := by
  cases event with
  | passed t scope =>
    simp only [structureStep] at hstep
    simp only [eventSites]
    split at hstep
    · rename_i hconst
      rw [if_pos hconst, List.foldlM_map]
      refine Report.exists_foldlM_of_step
        (R := fun (constants : Table String Constant) (ledger : Ledger) =>
          ledger.Shows (Table.find? constants)) h (outcome_addClauses hstep) ?_
      intro constants ledger d constants' h hd
      simp only [Report.outcome_bind, Report.outcome_pure] at hd
      obtain ⟨c, hc, hinsert⟩ := exists_ok_of_bind hd
      cases hinsert
      obtain ⟨value?, hvalue, hname, hshown⟩ := exists_valueOrKept heval hc
      rw [constantsOfSelf_eq_shownTo h d] at hvalue
      refine h.declare hvalue hshown fun key => ?_
      rw [Table.find?_insert, hname]
      rfl
    · rename_i hconst
      cases hstep
      rw [if_neg hconst]
      exact ⟨ledger, rfl, h⟩
  | _ =>
    cases hstep
    exact ⟨ledger, rfl, h⟩

/-- An evaluating scan of a structure keeps a ledger of its constants. -/
theorem scanStructureConstants_ledger (heval : options.evaluates = true) {s : Scope}
    {constants : Table String Constant}
    (h : (scanStructureConstants options tokens s).outcome = .ok constants) :
    ∃ ledger, (structureSites tokens s).foldlM (Ledger.declare options.room) [] = .ok ledger ∧
      ledger.Shows (Table.find? constants) := by
  have hstart : Ledger.Shows [] (Table.find? ([] : Table String Constant)) := fun key => rfl
  cases hlast : s.last with
  | none =>
    simp only [scanStructureConstants, hlast] at h
    cases h
    exact ⟨[], by simp only [structureSites, hlast]; rfl, hstart⟩
  | some last =>
    simp only [scanStructureConstants, hlast] at h
    simp only [structureSites, hlast]
    by_cases hrange : s.first < 0 ∨ last < s.first
    · rw [if_pos hrange] at h
      cases h
      rw [if_pos hrange]
      exact ⟨[], rfl, hstart⟩
    · rw [if_neg hrange] at h
      rw [if_neg hrange, foldlM_flatMap_parts]
      exact Report.exists_foldlM_of_step
        (R := fun (constants : Table String Constant) (ledger : Ledger) =>
          ledger.Shows (Table.find? constants)) hstart h
        fun constants ledger event constants' h hstep => structureStep_ledger heval h hstep

/-! ## Values and texts -/

/-- In an evaluating scan, no value is computed from source text, and whatever refers to a constant
that is kept as text is kept itself, just where the evaluation with the texts fails for every
expression that refers to such a constant. This holds of the constants of a file and of those of a
structure. -/
theorem scan_honest_iff (options : ScanOptions) (heval : options.evaluates = true)
    (tokens : List Token) :
    (∀ index, (scan options tokens).outcome = .ok index →
      ∃ ledger, (fileSites tokens).foldlM (Ledger.declare options.room) [] = .ok ledger ∧
        ledger.Shows index.constant? ∧
        (ledger.Honest options.room ∧ ledger.KeptSpreads options.room ↔
          ledger.TextsFail options.room)) ∧
    ∀ s constants, (scanStructureConstants options tokens s).outcome = .ok constants →
      ∃ ledger, (structureSites tokens s).foldlM (Ledger.declare options.room) [] = .ok ledger ∧
        ledger.Shows (Table.find? constants) ∧
        (ledger.Honest options.room ∧ ledger.KeptSpreads options.room ↔
          ledger.TextsFail options.room) := by
  have hgood {sites : List ConstantSite} {ledger : Ledger}
      (hrun : sites.foldlM (Ledger.declare options.room) [] = .ok ledger) :
      ledger.Honest options.room ∧ ledger.KeptSpreads options.room ↔
        ledger.TextsFail options.room :=
    Ledger.honest_and_keptSpreads_iff (Ledger.followsShown_foldlM (Ledger.each_nil _) hrun)
  constructor
  · intro index h
    obtain ⟨ledger, hrun, hshows⟩ := scan_ledger heval h
    exact ⟨ledger, hrun, hshows, hgood hrun⟩
  · intro s constants h
    obtain ⟨ledger, hrun, hshows⟩ := scanStructureConstants_ledger heval h
    exact ⟨ledger, hrun, hshows, hgood hrun⟩

/-- The source `const A = f(); const B = A . 'x';`. -/
def textTokens : List Token :=
  number 0 [⟨.openTag, "<?php", 1, 0⟩,
    ⟨.constKeyword, "const", 2, 0⟩, ⟨.identifier, "A", 2, 0⟩, ⟨.punctuation, "=", 2, 0⟩,
    ⟨.identifier, "f", 2, 0⟩, ⟨.punctuation, "(", 2, 0⟩, ⟨.punctuation, ")", 2, 0⟩,
    ⟨.punctuation, ";", 2, 0⟩,
    ⟨.constKeyword, "const", 3, 0⟩, ⟨.identifier, "B", 3, 0⟩, ⟨.punctuation, "=", 3, 0⟩,
    ⟨.identifier, "A", 3, 0⟩, ⟨.punctuation, ".", 3, 0⟩, ⟨.stringLiteral, "'x'", 3, 0⟩,
    ⟨.punctuation, ";", 3, 0⟩]

/-- The text of a call is taken for a value: `B` becomes `f()x`, though `A` has no value. -/
theorem scan_honest_iff_textTokens :
    ∃ index ledger, (scan { evaluates := true } textTokens).outcome = .ok index ∧
      (fileSites textTokens).foldlM (Ledger.declare 32) [] = .ok ledger ∧
      (index.constant? "B").map Constant.value = some (.text "f()x") ∧
      ¬ (ledger.Honest 32 ∧ ledger.KeptSpreads 32) := by
  -- The ledger holds `B` with a value after `A` without one.
  let expression := (textTokens.drop 11).take 3
  let called : LedgerEntry :=
    ⟨fileSite "" ⟨⟨.identifier, "A", 2, 2⟩, (textTokens.drop 4).take 3⟩, none⟩
  let joined : LedgerEntry :=
    ⟨fileSite "" ⟨⟨.identifier, "B", 3, 9⟩, expression⟩, some (.text "f()x")⟩
  have hrun : (fileSites textTokens).foldlM (Ledger.declare 32) [] = .ok [joined, called] := by cbv
  have hread : Expression.ofTokens 32 expression =
      .ok (.binary .concat (.reference "A" 3) (.string "'x'" 3)) := by cbv
  have houtcome : (scan { evaluates := true } textTokens).outcome.isOk := by cbv
  cases hscan : (scan { evaluates := true } textTokens).outcome with
  | error fault =>
    rw [hscan] at houtcome
    cases houtcome
  | ok index =>
    obtain ⟨ledger, hledger, hshows, hiff⟩ :=
      (scan_honest_iff { evaluates := true } rfl textTokens).1 index hscan
    cases hrun.symm.trans hledger
    refine ⟨index, _, rfl, hrun, hshows "B", fun hgood => ?_⟩
    have hrefers : Ledger.RefersToKept 32 [called] joined.site :=
      ⟨"A", called, ⟨_, hread, List.mem_append_left _ (List.mem_singleton_self _)⟩, by cbv, rfl⟩
    exact hiff.mp hgood joined [called] (List.suffix_refl _) hrefers (.text "f()x") (by cbv)

end Reflection
