import Reflection.Proofs.Declaration.KeptText
import Reflection.Proofs.Name

/-!
# What a name means in a constant expression

The constants of a file are evaluated one after the other, each in its own place: after the constants
of the statements before it and after the declarators before it in its own statement. A name in its
expression is looked for among these and nowhere else, first in the namespace of the statement and
then in the global one; of several constants under one name it means the latest.

A name that starts with a separator is looked for in the same way, without that separator. So it means
the constant that it names in full only where the namespace has none under the same name.

## Main definitions

* `Ledger.Latest`, `Ledger.Lacks`: the latest constant under a key, and that there is none.
* `ConstantPlace`: the place of a constant in a file, with what comes before it.
* `ConstantPlace.Evaluated`: the constant of a place has the value of its expression there.

## Main statements

* `scan_resolves`: what an unqualified name means.
* `scan_resolves_absolute`: when a name with a separator at its start means what it says.
-/
namespace Reflection

open Token

/-! ## The latest constant under a key -/

namespace Ledger

/-- The latest constant under a key: no later one has it. -/
def Latest (ledger : Ledger) (key : String) (entry : LedgerEntry) : Prop :=
  entry.site.key = key ∧
    ∃ newer older, ledger = newer ++ entry :: older ∧ ∀ e ∈ newer, e.site.key ≠ key

/-- No constant has been declared under a key. -/
def Lacks (ledger : Ledger) (key : String) : Prop := ∀ e ∈ ledger, e.site.key ≠ key

variable {ledger : Ledger} {key : String} {room : Nat}

theorem find?_eq_some_iff {entry : LedgerEntry} :
    ledger.find? key = some entry ↔ ledger.Latest key entry := by
  simp [find?, Latest, List.find?_eq_some_iff_append]

theorem find?_eq_none_iff : ledger.find? key = none ↔ ledger.Lacks key := by
  simp [find?, Lacks]

/-- What is shown of the latest constant under a key, by cases. -/
theorem eq_shown_iff {seen : Option Value} :
    seen = (ledger.find? key).map LedgerEntry.shown ↔
      (∀ entry, ledger.Latest key entry → seen = some entry.shown) ∧
        (ledger.Lacks key → seen = none) := by
  simp only [← find?_eq_some_iff, ← find?_eq_none_iff]
  cases ledger.find? key with
  | none => simp
  | some entry => simp

/-- A run of declarations adds to a ledger. -/
theorem suffix_of_foldlM {sites : List ConstantSite} {ledger ledger' : Ledger}
    (h : sites.foldlM (declare room) ledger = .ok ledger') : ledger <:+ ledger' := by
  induction sites generalizing ledger with
  | nil =>
    cases h
    exact List.suffix_refl _
  | cons site rest ih =>
    obtain ⟨middle, hdeclare, hrest⟩ := exists_ok_of_bind h
    obtain ⟨value?, -, rfl⟩ := declare_eq_ok_iff.mp hdeclare
    exact (List.suffix_cons _ ledger).trans (ih hrest)

end Ledger

/-! ## The place of a constant -/

/-- The namespaces of a token stream. -/
def namespacesOf (tokens : List Token) : NamespaceScopes :=
  namespaceScopes tokens (closedScopes (Traversal.events tokens))

/-- The constants that a statement declares, in order. -/
def declaratorsOf (tokens : List Token) (s : Statement) : List Declarator :=
  (readConst s.token.line (lastLine tokens) (tokensAfter tokens s.token)).items

/-- A constant of a file in its place: the statements before its own, its statement, the constants
before it in that statement, and its own declarator. -/
structure ConstantPlace where
  before : List Statement
  statement : Statement
  declared : List Declarator
  declarator : Declarator

namespace ConstantPlace

/-- The place is one of a token stream. -/
structure IsIn (p : ConstantPlace) (tokens : List Token) : Prop where
  declares : p.statement.token.kind ≠ .useKeyword
  inFile : p.before ++ [p.statement] <+: statements tokens (Traversal.events tokens)
  inStatement : p.declared ++ [p.declarator] <+: declaratorsOf tokens p.statement

/-- The namespace in which the constant is declared. -/
def space (p : ConstantPlace) (tokens : List Token) : String :=
  (namespacesOf tokens).nameAt p.statement.token.index

/-- The constant as it is declared. -/
def site (p : ConstantPlace) (tokens : List Token) : ConstantSite :=
  fileSite (p.space tokens) p.declarator

/-- The constants that are declared before it. -/
def earlierSites (p : ConstantPlace) (tokens : List Token) : List ConstantSite :=
  p.before.flatMap (statementSites tokens (namespacesOf tokens)) ++
    p.declared.map (fileSite (p.space tokens))

/-- The index as a scan has built it when it comes to the constant. -/
def indexBefore (p : ConstantPlace) (options : ScanOptions) (tokens : List Token) :
    Report ScanFault DeclarationIndex := do
  let index ← fileNamespaces tokens (closedScopes (Traversal.events tokens)) {}
  let index ← p.before.foldlM (fileStatement options tokens (namespacesOf tokens)) index
  p.declared.foldlM (fileConstant options tokens (namespacesOf tokens) p.statement) index

/-- In the ledger of a scan, the constant of a place has the value of its expression among the
`earlier` constants, which are those that the index holds at that point. -/
structure Evaluated (p : ConstantPlace) (options : ScanOptions) (tokens : List Token)
    (ledger earlier : Ledger) (index : DeclarationIndex) (value? : Option Value) : Prop where
  reached : (p.indexBefore options tokens).outcome = .ok index
  run : (p.earlierSites tokens).foldlM (Ledger.declare options.room) [] = .ok earlier
  shows : earlier.Shows index.constant?
  value : valueOrKept (evaluate (constantsIn (p.space tokens) index) options.room
    p.declarator.expression) = .ok value?
  entry : ⟨p.site tokens, value?⟩ :: earlier <:+ ledger

variable {p : ConstantPlace} {options : ScanOptions} {tokens : List Token}
  {ledger earlier : Ledger} {index : DeclarationIndex} {value? : Option Value}

/-- The constants of a file are those before a place, the one in it and those after it. -/
theorem IsIn.exists_fileSites_eq (h : p.IsIn tokens) :
    ∃ later, fileSites tokens = p.earlierSites tokens ++ p.site tokens :: later := by
  obtain ⟨after, hafter⟩ := h.inFile
  obtain ⟨rest, hrest⟩ := h.inStatement
  have hown : statementSites tokens (namespacesOf tokens) p.statement =
      (declaratorsOf tokens p.statement).map (fileSite (p.space tokens)) := if_neg h.declares
  have hsites : fileSites tokens = (statements tokens (Traversal.events tokens)).flatMap
    (statementSites tokens (namespacesOf tokens)) := rfl
  refine ⟨rest.map (fileSite (p.space tokens)) ++
    after.flatMap (statementSites tokens (namespacesOf tokens)), ?_⟩
  rw [hsites, ← hafter, List.flatMap_append, List.flatMap_append, List.flatMap_singleton, hown,
    ← hrest]
  simp [earlierSites, site]

/-- A scan that completes comes to every place. -/
theorem IsIn.exists_indexBefore (h : p.IsIn tokens)
    (hscan : (scan options tokens).outcome = .ok index) :
    ∃ reached, (p.indexBefore options tokens).outcome = .ok reached := by
  obtain ⟨after, hafter⟩ := h.inFile
  obtain ⟨rest, hrest⟩ := h.inStatement
  simp only [scan, Report.outcome_bind, ← hafter, List.append_assoc, List.foldlM_append,
    List.singleton_append, List.foldlM_cons] at hscan
  obtain ⟨-, -, hscan⟩ := exists_ok_of_bind hscan
  obtain ⟨start, hstart, hscan⟩ := exists_ok_of_bind hscan
  obtain ⟨_, hstatements, -⟩ := exists_ok_of_bind hscan
  obtain ⟨filed, hfiled, hstatements⟩ := exists_ok_of_bind hstatements
  obtain ⟨own, hown, -⟩ := exists_ok_of_bind hstatements
  rw [fileStatement, if_neg h.declares] at hown
  have hclauses : ((declaratorsOf tokens p.statement).foldlM
      (fileConstant options tokens (namespacesOf tokens) p.statement) filed).outcome = .ok own :=
    foldlM_fileConstant hown
  rw [← hrest, List.append_assoc, List.foldlM_append, Report.outcome_bind] at hclauses
  obtain ⟨reached, hreached, -⟩ := exists_ok_of_bind hclauses
  refine ⟨reached, ?_⟩
  have hbefore : (p.before.foldlM (fileStatement options tokens (namespacesOf tokens))
      start).outcome = .ok filed := hfiled
  simp only [indexBefore, Report.outcome_bind]
  rw [bind_of_eq_ok hstart, bind_of_eq_ok hbefore]
  exact hreached

/-- When a scan comes to a place, the constants before it are found with what is shown of them. -/
theorem exists_ledger_of_indexBefore (heval : options.evaluates = true)
    (hreached : (p.indexBefore options tokens).outcome = .ok index) :
    ∃ earlier, (p.earlierSites tokens).foldlM (Ledger.declare options.room) [] = .ok earlier ∧
      earlier.Shows index.constant? := by
  simp only [indexBefore, Report.outcome_bind] at hreached
  obtain ⟨start, hstart, hreached⟩ := exists_ok_of_bind hreached
  obtain ⟨filed, hfiled, hreached⟩ := exists_ok_of_bind hreached
  have hempty : Ledger.Shows [] ({} : DeclarationIndex).constant? := fun key => rfl
  obtain ⟨ledger, hrun, hshows⟩ := Report.exists_foldlM_of_step
    (R := fun (index : DeclarationIndex) (ledger : Ledger) => ledger.Shows index.constant?)
    ((keptBy_shows (by simp)).fileNamespaces hempty hstart) hfiled
    fun index ledger s index' h hstep => fileStatement_ledger heval h hstep
  obtain ⟨earlier, hdeclared, hearlier⟩ := Report.exists_foldlM_of_step
    (R := fun (index : DeclarationIndex) (ledger : Ledger) => ledger.Shows index.constant?)
    (g := fun ledger d => ledger.declare options.room (fileSite (p.space tokens) d))
    hshows hreached fun index ledger d index' h hstep => fileConstant_ledger heval h hstep
  refine ⟨earlier, ?_, hearlier⟩
  rw [earlierSites, List.foldlM_append, foldlM_flatMap_parts, bind_of_eq_ok hrun, List.foldlM_map]
  exact hdeclared

/-- A scan that completes gives the constant of every place the value of its expression there. -/
theorem IsIn.exists_evaluated (h : p.IsIn tokens) (heval : options.evaluates = true)
    (hscan : (scan options tokens).outcome = .ok index)
    (hledger : (fileSites tokens).foldlM (Ledger.declare options.room) [] = .ok ledger) :
    ∃ earlier reached value?, p.Evaluated options tokens ledger earlier reached value? := by
  obtain ⟨reached, hreached⟩ := h.exists_indexBefore hscan
  obtain ⟨earlier, hrun, hshows⟩ := exists_ledger_of_indexBefore heval hreached
  obtain ⟨later, hsites⟩ := h.exists_fileSites_eq
  rw [hsites, List.foldlM_append, bind_of_eq_ok hrun, List.foldlM_cons] at hledger
  obtain ⟨own, hown, hlater⟩ := exists_ok_of_bind hledger
  obtain ⟨value?, hvalue, rfl⟩ := Ledger.declare_eq_ok_iff.mp hown
  refine ⟨earlier, reached, value?, hreached, hrun, hshows, ?_, Ledger.suffix_of_foldlM hlater⟩
  rw [constantsIn_eq_shownTo hshows _ p.declarator]
  exact hvalue

/-! ## Names in the expression of a constant -/

namespace Evaluated

variable (h : p.Evaluated options tokens ledger earlier index value?)

include h

/-- A name means the latest constant under it in the namespace. -/
theorem constantsIn_of_latest {name : String} {entry : LedgerEntry}
    (hlatest : earlier.Latest (Name.join (p.space tokens) (Name.relative name)) entry) :
    constantsIn (p.space tokens) index name = some entry.shown := by
  rw [constantsIn_eq_shownTo h.shows _ p.declarator]
  simp [Ledger.shownTo, Ledger.meant?, fileSite, Ledger.find?_eq_some_iff.mpr hlatest]

/-- A name under which the namespace has no constant means the latest one under it elsewhere. -/
theorem constantsIn_of_lacks (name : String)
    (hlacks : earlier.Lacks (Name.join (p.space tokens) (Name.relative name))) :
    constantsIn (p.space tokens) index name =
      (earlier.find? (Name.relative name)).map LedgerEntry.shown := by
  rw [constantsIn_eq_shownTo h.shows _ p.declarator]
  simp only [Ledger.shownTo, Ledger.meant?, fileSite, List.findSome?_cons, List.findSome?_nil,
    Ledger.find?_eq_none_iff.mpr hlacks]
  cases earlier.find? (Name.relative name) <;> rfl

/-- A constant whose expression refers to an unknown constant is kept as text. -/
theorem kept_of_unknown {name : String}
    (hunknown : constantsIn (p.space tokens) index name = none)
    (hrefers : RefersTo options.room p.declarator.expression name) : value? = none := by
  cases value? with
  | none => rfl
  | some v =>
    have hknown := isSome_of_refersTo (Ledger.valueOrKept_eq_some_iff.mp h.value) hrefers
    rw [hunknown] at hknown
    cases hknown

/-- What comes after a constant has no part in its value: a constant that is declared in the same way
after the same constants has the same value, whatever follows. -/
theorem value?_eq {p' : ConstantPlace} {tokens' : List Token} {ledger' earlier' : Ledger}
    {index' : DeclarationIndex} {value?' : Option Value}
    (h' : p'.Evaluated options tokens' ledger' earlier' index' value?')
    (hearlier : p'.earlierSites tokens' = p.earlierSites tokens)
    (hsite : p'.site tokens' = p.site tokens) : value?' = value? := by
  have hrun := h'.run
  rw [hearlier, h.run] at hrun
  cases hrun
  have hvalue : valueOrKept (evaluate (earlier.shownTo (p.site tokens)) options.room
      (p.site tokens).expression) = .ok value? := by
    have hvalue := h.value
    rwa [constantsIn_eq_shownTo h.shows _ p.declarator] at hvalue
  have hvalue' : valueOrKept (evaluate (earlier.shownTo (p'.site tokens')) options.room
      (p'.site tokens').expression) = .ok value?' := by
    have hvalue' := h'.value
    rwa [constantsIn_eq_shownTo h'.shows _ p'.declarator] at hvalue'
  rw [hsite, hvalue] at hvalue'
  exact (Except.ok.inj hvalue').symm

end Evaluated
end ConstantPlace

/-- In an evaluating scan that completes, an unqualified name in the expression of a constant means the
latest constant under that name in the namespace, of those that stand before; where there is none, the
latest global one; and where there is none either, the constant is kept as text. What comes after the
constant has no part in its value. -/
theorem scan_resolves (options : ScanOptions) (heval : options.evaluates = true)
    (tokens : List Token) {index : DeclarationIndex}
    (hscan : (scan options tokens).outcome = .ok index) :
    ∃ ledger, (fileSites tokens).foldlM (Ledger.declare options.room) [] = .ok ledger ∧
      ledger.Shows index.constant? ∧
      ∀ p : ConstantPlace, p.IsIn tokens → ∃ earlier reached value?,
        p.Evaluated options tokens ledger earlier reached value? ∧
        (∀ name, Name.isQualified name = false →
          (∀ entry, earlier.Latest (Name.join (p.space tokens) name) entry →
            constantsIn (p.space tokens) reached name = some entry.shown) ∧
          (earlier.Lacks (Name.join (p.space tokens) name) →
            (∀ entry, earlier.Latest name entry →
              constantsIn (p.space tokens) reached name = some entry.shown) ∧
            (earlier.Lacks name → RefersTo options.room p.declarator.expression name →
              value? = none))) ∧
        ∀ (p' : ConstantPlace) tokens' ledger' earlier' reached' value?',
          p'.Evaluated options tokens' ledger' earlier' reached' value?' →
            p'.earlierSites tokens' = p.earlierSites tokens →
              p'.site tokens' = p.site tokens → value?' = value? := by
  obtain ⟨ledger, hledger, hshows⟩ := scan_ledger heval hscan
  refine ⟨ledger, hledger, hshows, fun p hp => ?_⟩
  obtain ⟨earlier, reached, value?, hevaluated⟩ := hp.exists_evaluated heval hscan hledger
  refine ⟨earlier, reached, value?, hevaluated, fun name hname => ?_,
    fun _ _ _ _ _ _ h' hearlier hsite => hevaluated.value?_eq h' hearlier hsite⟩
  have hrelative : Name.relative name = name :=
    Name.relative_of_not_isAbsolute (Name.isAbsolute_of_not_isQualified hname)
  constructor
  · intro entry hlatest
    exact hevaluated.constantsIn_of_latest (hrelative.symm ▸ hlatest)
  · intro hlacks
    have hseen := hevaluated.constantsIn_of_lacks name (hrelative.symm ▸ hlacks)
    rw [hrelative] at hseen
    obtain ⟨hfound, hunknown⟩ := Ledger.eq_shown_iff.mp hseen
    exact ⟨hfound, fun hlacks => hevaluated.kept_of_unknown (hunknown hlacks)⟩

/-- The source `namespace { const X = 1; } namespace N { const Y = X, X = 2, Z = X, W = V; }`. -/
def shadowTokens : List Token :=
  number 0 [⟨.openTag, "<?php", 1, 0⟩,
    ⟨.namespaceKeyword, "namespace", 2, 0⟩, ⟨.punctuation, "\x7b", 2, 0⟩,
    ⟨.constKeyword, "const", 3, 0⟩, ⟨.identifier, "X", 3, 0⟩, ⟨.punctuation, "=", 3, 0⟩,
    ⟨.numberLiteral, "1", 3, 0⟩, ⟨.punctuation, ";", 3, 0⟩, ⟨.punctuation, "\x7d", 4, 0⟩,
    ⟨.namespaceKeyword, "namespace", 5, 0⟩, ⟨.identifier, "N", 5, 0⟩, ⟨.punctuation, "\x7b", 5, 0⟩,
    ⟨.constKeyword, "const", 6, 0⟩,
    ⟨.identifier, "Y", 6, 0⟩, ⟨.punctuation, "=", 6, 0⟩, ⟨.identifier, "X", 6, 0⟩,
    ⟨.punctuation, ",", 6, 0⟩,
    ⟨.identifier, "X", 6, 0⟩, ⟨.punctuation, "=", 6, 0⟩, ⟨.numberLiteral, "2", 6, 0⟩,
    ⟨.punctuation, ",", 6, 0⟩,
    ⟨.identifier, "Z", 6, 0⟩, ⟨.punctuation, "=", 6, 0⟩, ⟨.identifier, "X", 6, 0⟩,
    ⟨.punctuation, ",", 6, 0⟩,
    ⟨.identifier, "W", 6, 0⟩, ⟨.punctuation, "=", 6, 0⟩, ⟨.identifier, "V", 6, 0⟩,
    ⟨.punctuation, ";", 6, 0⟩, ⟨.punctuation, "\x7d", 7, 0⟩]

/-- The constant `Z`, after a constant `X` of its own namespace. -/
def shadowPlace : ConstantPlace :=
  let scope : Scope :=
    { level := 1, parent := some ⟨.openTag, "<?php", 1, 0⟩,
      owner := some ⟨.namespaceKeyword, "namespace", 2, 1⟩, first := 2, last := some 8 }
  let scopeOfN : Scope :=
    { scope with
      owner := some ⟨.namespaceKeyword, "namespace", 5, 9⟩, first := 11, last := some 29 }
  { before := [⟨⟨.constKeyword, "const", 3, 3⟩, scope⟩]
    statement := ⟨⟨.constKeyword, "const", 6, 12⟩, scopeOfN⟩
    declared := [⟨⟨.identifier, "Y", 6, 13⟩, [⟨.identifier, "X", 6, 15⟩]⟩,
      ⟨⟨.identifier, "X", 6, 17⟩, [⟨.numberLiteral, "2", 6, 19⟩]⟩]
    declarator := ⟨⟨.identifier, "Z", 6, 21⟩, [⟨.identifier, "X", 6, 23⟩]⟩ }

/-- `Y` has the value of the global constant, `Z` that of the one of its own namespace, which stands
between the two, and `W` refers to a constant that does not exist. -/
theorem scan_resolves_shadowTokens :
    ∃ index ledger earlier reached value?,
      (scan { evaluates := true } shadowTokens).outcome = .ok index ∧
      shadowPlace.IsIn shadowTokens ∧
      shadowPlace.Evaluated { evaluates := true } shadowTokens ledger earlier reached value? ∧
      constantsIn "N" reached "X" = some (.int 2) ∧
      ["N\\Y", "N\\Z", "N\\W"].map (fun key => (index.constant? key).map Constant.value) =
        [some (.int 1), some (.int 2), some (.text "V")] := by
  obtain ⟨index, hscan⟩ : ∃ index, (scan { evaluates := true } shadowTokens).outcome = .ok index :=
    exists_ok_of_isOk (by cbv)
  have hplace : shadowPlace.IsIn shadowTokens :=
    ⟨by decide, ⟨[], by cbv⟩, ⟨[⟨⟨.identifier, "W", 6, 25⟩, [⟨.identifier, "V", 6, 27⟩]⟩], by cbv⟩⟩
  have hspace : shadowPlace.space shadowTokens = "N" := by cbv
  let global : LedgerEntry :=
    ⟨fileSite "" ⟨⟨.identifier, "X", 3, 4⟩, [⟨.numberLiteral, "1", 3, 6⟩]⟩, some (.int 1)⟩
  let y : LedgerEntry :=
    ⟨fileSite "N" ⟨⟨.identifier, "Y", 6, 13⟩, [⟨.identifier, "X", 6, 15⟩]⟩, some (.int 1)⟩
  let x : LedgerEntry :=
    ⟨fileSite "N" ⟨⟨.identifier, "X", 6, 17⟩, [⟨.numberLiteral, "2", 6, 19⟩]⟩, some (.int 2)⟩
  let z : LedgerEntry := ⟨fileSite "N" shadowPlace.declarator, some (.int 2)⟩
  let w : LedgerEntry :=
    ⟨fileSite "N" ⟨⟨.identifier, "W", 6, 25⟩, [⟨.identifier, "V", 6, 27⟩]⟩, none⟩
  have hledger : (fileSites shadowTokens).foldlM (Ledger.declare 32) [] =
      .ok [w, z, x, y, global] := by cbv
  have hearlier : (shadowPlace.earlierSites shadowTokens).foldlM (Ledger.declare 32) [] =
      .ok [x, y, global] := by cbv
  obtain ⟨ledger, hrun, hshows, hplaces⟩ :=
    scan_resolves { evaluates := true } rfl shadowTokens hscan
  cases hledger.symm.trans hrun
  obtain ⟨earlier, reached, value?, hevaluated, hnames, -⟩ := hplaces shadowPlace hplace
  cases hearlier.symm.trans hevaluated.run
  have hseen := (hnames "X" (by decide)).1 x ⟨by rw [hspace]; cbv, [], [y, global], rfl, by simp⟩
  rw [hspace] at hseen
  refine ⟨index, _, _, reached, value?, hscan, hplace, hevaluated, hseen, ?_⟩
  exact congrArg₂ List.cons (hshows "N\\Y") (congrArg₂ List.cons (hshows "N\\Z")
    (congrArg₂ List.cons (hshows "N\\W") rfl))

/-- In an evaluating scan that completes, a name with a separator at its start means the constant that
it names in full, and none where there is none, just where the namespace has no constant under that
name that is shown otherwise. A constant of the namespace comes first. -/
theorem scan_resolves_absolute (options : ScanOptions) (heval : options.evaluates = true)
    (tokens : List Token) {index : DeclarationIndex}
    (hscan : (scan options tokens).outcome = .ok index) :
    ∃ ledger, (fileSites tokens).foldlM (Ledger.declare options.room) [] = .ok ledger ∧
      ledger.Shows index.constant? ∧
      ∀ p : ConstantPlace, p.IsIn tokens → ∃ earlier reached value?,
        p.Evaluated options tokens ledger earlier reached value? ∧
        ∀ name, Name.isAbsolute name = false →
          ((∀ entry, earlier.Latest name entry →
              constantsIn (p.space tokens) reached ("\\" ++ name) = some entry.shown) ∧
            (earlier.Lacks name → constantsIn (p.space tokens) reached ("\\" ++ name) = none) ↔
            ∀ entry, earlier.Latest (Name.join (p.space tokens) name) entry →
              ∃ named, earlier.Latest name named ∧ named.shown = entry.shown) ∧
          (∀ entry, earlier.Latest (Name.join (p.space tokens) name) entry →
            constantsIn (p.space tokens) reached ("\\" ++ name) = some entry.shown) ∧
          (earlier.Lacks (Name.join (p.space tokens) name) → earlier.Lacks name →
            RefersTo options.room p.declarator.expression ("\\" ++ name) → value? = none) := by
  obtain ⟨ledger, hledger, hshows⟩ := scan_ledger heval hscan
  refine ⟨ledger, hledger, hshows, fun p hp => ?_⟩
  obtain ⟨earlier, reached, value?, hevaluated⟩ := hp.exists_evaluated heval hscan hledger
  refine ⟨earlier, reached, value?, hevaluated, fun name hname => ?_⟩
  have hrelative : Name.relative ("\\" ++ name) = name := by
    rw [Name.relative_separator_append, Name.relative_of_not_isAbsolute hname]
  have howned (entry : LedgerEntry)
      (hlatest : earlier.Latest (Name.join (p.space tokens) name) entry) :
      constantsIn (p.space tokens) reached ("\\" ++ name) = some entry.shown :=
    hevaluated.constantsIn_of_latest (hrelative.symm ▸ hlatest)
  have hnamed (hlacks : earlier.Lacks (Name.join (p.space tokens) name)) :
      constantsIn (p.space tokens) reached ("\\" ++ name) =
        (earlier.find? name).map LedgerEntry.shown := by
    have hseen := hevaluated.constantsIn_of_lacks ("\\" ++ name) (hrelative.symm ▸ hlacks)
    rwa [hrelative] at hseen
  refine ⟨?_, howned, fun hlacks hunknown => hevaluated.kept_of_unknown ?_⟩
  · rw [← Ledger.eq_shown_iff]
    simp only [← Ledger.find?_eq_some_iff]
    cases hfind : earlier.find? (Name.join (p.space tokens) name) with
    | none => simp [hnamed (Ledger.find?_eq_none_iff.mp hfind)]
    | some owned =>
      rw [howned owned (Ledger.find?_eq_some_iff.mp hfind), eq_comm]
      simp
  · exact (Ledger.eq_shown_iff.mp (hnamed hlacks)).2 hunknown

/-- The source `namespace N; const X = 1; const Y = \X;`. -/
def absoluteTokens : List Token :=
  number 0 [⟨.openTag, "<?php", 1, 0⟩,
    ⟨.namespaceKeyword, "namespace", 2, 0⟩, ⟨.identifier, "N", 2, 0⟩, ⟨.punctuation, ";", 2, 0⟩,
    ⟨.constKeyword, "const", 3, 0⟩, ⟨.identifier, "X", 3, 0⟩, ⟨.punctuation, "=", 3, 0⟩,
    ⟨.numberLiteral, "1", 3, 0⟩, ⟨.punctuation, ";", 3, 0⟩,
    ⟨.constKeyword, "const", 4, 0⟩, ⟨.identifier, "Y", 4, 0⟩, ⟨.punctuation, "=", 4, 0⟩,
    ⟨.separator, "\\", 4, 0⟩, ⟨.identifier, "X", 4, 0⟩, ⟨.punctuation, ";", 4, 0⟩]

/-- The constant `Y`, whose expression names a global constant `X` that does not exist. -/
def absolutePlace : ConstantPlace :=
  let scope : Scope :=
    { level := 1, parent := some ⟨.openTag, "<?php", 1, 0⟩,
      owner := some ⟨.namespaceKeyword, "namespace", 2, 1⟩, first := 3, last := some 14,
      braceless := true }
  { before := [⟨⟨.constKeyword, "const", 3, 4⟩, scope⟩]
    statement := ⟨⟨.constKeyword, "const", 4, 9⟩, scope⟩
    declared := []
    declarator := ⟨⟨.identifier, "Y", 4, 10⟩,
      [⟨.separator, "\\", 4, 12⟩, ⟨.identifier, "X", 4, 13⟩]⟩ }

/-- The value of `Y` is that of the constant of the namespace, though there is no global one. -/
theorem scan_resolves_absolute_absoluteTokens :
    ∃ index ledger earlier reached,
      (scan { evaluates := true } absoluteTokens).outcome = .ok index ∧
      absolutePlace.IsIn absoluteTokens ∧
      absolutePlace.Evaluated { evaluates := true } absoluteTokens ledger earlier reached
        (some (.int 1)) ∧
      earlier.Lacks "X" ∧ constantsIn "N" reached "\\X" = some (.int 1) ∧
      (index.constant? "N\\Y").map Constant.value = some (.int 1) := by
  obtain ⟨index, hscan⟩ : ∃ index, (scan { evaluates := true } absoluteTokens).outcome = .ok index :=
    exists_ok_of_isOk (by cbv)
  have hplace : absolutePlace.IsIn absoluteTokens := ⟨by decide, ⟨[], by cbv⟩, ⟨[], by cbv⟩⟩
  have hspace : absolutePlace.space absoluteTokens = "N" := by cbv
  let x : LedgerEntry :=
    ⟨fileSite "N" ⟨⟨.identifier, "X", 3, 5⟩, [⟨.numberLiteral, "1", 3, 7⟩]⟩, some (.int 1)⟩
  let y : LedgerEntry := ⟨fileSite "N" absolutePlace.declarator, some (.int 1)⟩
  have hledger : (fileSites absoluteTokens).foldlM (Ledger.declare 32) [] = .ok [y, x] := by cbv
  have hearlier : (absolutePlace.earlierSites absoluteTokens).foldlM (Ledger.declare 32) [] =
      .ok [x] := by cbv
  obtain ⟨ledger, hrun, hshows, hplaces⟩ :=
    scan_resolves_absolute { evaluates := true } rfl absoluteTokens hscan
  cases hledger.symm.trans hrun
  obtain ⟨earlier, reached, value?, hevaluated, hnames⟩ := hplaces absolutePlace hplace
  cases hearlier.symm.trans hevaluated.run
  have hvalue : value? = some (.int 1) :=
    congrArg LedgerEntry.value? (List.head_eq_of_cons_eq (hevaluated.entry.eq_of_length rfl))
  subst hvalue
  have hseen := (hnames "X" (by decide)).2.1 x ⟨by rw [hspace]; cbv, [], [], rfl, by simp⟩
  rw [hspace] at hseen
  exact ⟨index, _, _, reached, hscan, hplace, hevaluated, Ledger.find?_eq_none_iff.mp (by cbv),
    hseen, hshows "N\\Y"⟩

end Reflection
