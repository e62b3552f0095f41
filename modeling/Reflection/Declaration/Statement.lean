import Reflection.Constant.Fault
import Reflection.Name
import Reflection.Token.Stream

/-!
# Statements that declare imports and constants

A statement is read from the tokens after its keyword. It gives its clauses in order and, where it
is malformed, the fault that ends it after some of them.

## Main definitions

* `useClauses`: the imports of a `use` statement.
* `declarators`: the constants of a `const` statement.
-/
namespace Reflection

open Token

/-- What is wrong with a statement, and at which line. -/
inductive StatementFault
  | aliasExpected (line : Int)
  | nameExpected (line : Int)
  | equalsExpected (line : Int)
  deriving DecidableEq, Repr

namespace StatementFault

/-- Line of a fault, negative when unknown. -/
def line : StatementFault → Int
  | aliasExpected line | nameExpected line | equalsExpected line => line

/-- Wording of a fault. -/
def message : StatementFault → String
  | aliasExpected line => atLine "Alias expected after as" line
  | nameExpected line => atLine "Constant name expected" line
  | equalsExpected line => atLine "Expect \"=\" after constant name" line

end StatementFault

/-- The clauses of a statement, and the fault that ends it. -/
structure Clauses (α : Type) where
  items : List α
  fault : Option StatementFault := none

/-- The clauses after another one. -/
def Clauses.cons {α : Type} (item : α) (c : Clauses α) : Clauses α := ⟨item :: c.items, c.fault⟩

/-! ## Imports -/

/-- One import: a qualified name without separator at its start, and its alias. -/
structure UseClause where
  name : String
  localName : String
  deriving DecidableEq, Repr

/-- The alias that follows the name of an import, and the tokens after it. Without the keyword `as`
the alias is the last segment of the name. -/
def readAlias (line : Int) (name : String) (rest : List Token) :
    Except StatementFault (String × List Token) :=
  let rest := skipIgnorable rest
  if rest.head?.any (·.kind == .asKeyword) then
    match skipIgnorable rest.tail with
    | t :: after =>
      if t.isIdentifier then .ok (t.text, skipIgnorable after) else .error (.aliasExpected line)
    | [] => .error (.aliasExpected line)
  else .ok (Name.localPart name, rest)

theorem length_readAlias {line : Int} {name localName : String} {rest left : List Token}
    (h : readAlias line name rest = .ok (localName, left)) : left.length ≤ rest.length := by
  unfold readAlias at h
  have hskip := length_skipIgnorable rest
  simp only at h
  split at h
  · split at h
    · rename_i t after heq
      split at h
      · obtain ⟨_, rfl⟩ := by simpa using h
        have h1 := length_skipIgnorable (skipIgnorable rest).tail
        have h2 := length_skipIgnorable after
        rw [heq] at h1
        simp only [List.length_cons, List.length_tail] at h1
        omega
      · simp at h
    · simp at h
  · obtain ⟨_, rfl⟩ := by simpa using h
    exact hskip

/-- The imports that remain of a statement. A clause without a name ends it, and so does a name that
ends in a separator, as before the braces of a group. -/
def useClauses (line : Int) (rest : List Token) : Clauses UseClause :=
  let taken := takeNameTokens false rest
  have : taken.2.length ≤ rest.length := length_takeNameTokens false rest
  let name := Name.relative (spelling taken.1)
  if name = "" ∨ Name.endsOpen name then ⟨[], none⟩
  else
    match h : readAlias line name taken.2 with
    | .error fault => ⟨[], some fault⟩
    | .ok (localName, left) =>
      have hleft : left.length ≤ taken.2.length := length_readAlias h
      match left, hleft with
      | t :: after, _ =>
        if t.isPunct "," then
          have := length_skipIgnorable after
          (useClauses line (skipIgnorable after)).cons ⟨name, localName⟩
        else ⟨[⟨name, localName⟩], none⟩
      | [], _ => ⟨[⟨name, localName⟩], none⟩
  termination_by rest.length
  decreasing_by simp only [List.length_cons] at *; omega

/-- The tokens of a `use` statement from its first name on: a keyword that says what kind of symbol
is imported is passed over. -/
def afterUseKind (rest : List Token) : List Token :=
  match skipIgnorable rest with
  | t :: after =>
    if t.kind = .functionKeyword ∨ t.kind = .constKeyword then skipIgnorable after else t :: after
  | [] => []

/-- The imports of a `use` statement at a line, from the tokens after its keyword. -/
def readUse (line : Int) (rest : List Token) : Clauses UseClause :=
  useClauses line (afterUseKind rest)

/-! ## Constants -/

/-- One constant of a statement: the token of its name and the significant tokens of its value. -/
structure Declarator where
  name : Token
  expression : List Token
  deriving DecidableEq, Repr

/-- A token ends the head of a declarator. -/
def endsHead (t : Token) : Bool := t.isPunct "=" || t.isPunct ";" || t.isPunct ","

/-- The last identifier of the head of a declarator, `name` being the last one so far, and the
tokens from the end of the head. -/
def declaratorHead (name : Option Token) : List Token → Option Token × List Token
  | [] => (name, [])
  | t :: rest =>
    if endsHead t then (name, t :: rest)
    else declaratorHead (if t.isIdentifier then some t else name) rest

theorem length_declaratorHead (name : Option Token) (ts : List Token) :
    (declaratorHead name ts).2.length ≤ ts.length := by
  induction ts generalizing name with
  | nil => simp [declaratorHead]
  | cons t rest ih =>
    simp only [declaratorHead]
    split
    · simp
    · have := ih (if t.isIdentifier then some t else name)
      simp only [List.length_cons]; omega

/-- The constants that remain of a statement at a line, in a stream that ends at `lastLine`. The
name of a constant is the last identifier before its equals sign, so a type may stand before it. -/
def declarators (line lastLine : Int) (rest : List Token) : Clauses Declarator :=
  if rest.isEmpty then ⟨[], none⟩
  else
    have hhead := length_declaratorHead none rest
    match declaratorHead none rest, hhead with
    | (none, _), _ => ⟨[], some (.nameExpected line)⟩
    | (some _, []), _ => ⟨[], some (.equalsExpected lastLine)⟩
    | (some name, t :: after), _ =>
      if t.isPunct "=" then
        let taken := takeExpression [] after
        have htaken : taken.2.length ≤ after.length := length_takeExpression [] after
        match taken.2, htaken with
        | c :: left, _ =>
          if c.text = "," then
            have := length_skipIgnorable left
            (declarators line lastLine (skipIgnorable left)).cons ⟨name, taken.1⟩
          else ⟨[⟨name, taken.1⟩], none⟩
        | [], _ => ⟨[⟨name, taken.1⟩], none⟩
      else ⟨[], some (.equalsExpected t.line)⟩
  termination_by rest.length
  decreasing_by simp only [List.length_cons] at *; omega

/-- The significant tokens of the value that an equals sign at a position of a stream gives to a
constant, and the tokens from the terminator of the value. -/
def readValueAt (tokens : List Token) (index : Int) :
    Except StatementFault (List Token × List Token) :=
  if index < 0 then .error (.equalsExpected ((tokens.getLast?.map Token.line).getD (-1)))
  else
    match tokens.drop index.toNat with
    | t :: after =>
      if t.isPunct "=" then .ok (takeExpression [] after) else .error (.equalsExpected t.line)
    | [] => .error (.equalsExpected ((tokens.getLast?.map Token.line).getD (-1)))

/-- The constants of a `const` statement at a line, from the tokens after its keyword. -/
def readConst (line lastLine : Int) (rest : List Token) : Clauses Declarator :=
  declarators line lastLine (skipIgnorable rest)

end Reflection
