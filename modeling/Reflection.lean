import Reflection.Class.Cache
import Reflection.Class.Import
import Reflection.Class.Linearization
import Reflection.Class.Method
import Reflection.Class.Table
import Reflection.Class.TypeHint
import Reflection.Constant.Expression
import Reflection.Constant.Fault
import Reflection.Constant.NumberLiteral
import Reflection.Constant.Operator
import Reflection.Constant.Parser
import Reflection.Constant.StringLiteral
import Reflection.Declaration
import Reflection.Declaration.Index
import Reflection.Declaration.Scan
import Reflection.Declaration.Statement
import Reflection.DocComment
import Reflection.DocComment.Tag
import Reflection.DocComment.TypeForm
import Reflection.Field
import Reflection.Field.Access
import Reflection.Field.Binding
import Reflection.Field.Flags
import Reflection.Field.Listing
import Reflection.Field.Naming
import Reflection.Field.Policy
import Reflection.Field.Service
import Reflection.Field.Visit
import Reflection.Instance
import Reflection.Instance.Call
import Reflection.Name
import Reflection.Name.Resolution
import Reflection.Number.Bitwise
import Reflection.Number.FloatText
import Reflection.Number.IntegerText
import Reflection.Number.Rounding
import Reflection.Number.Shortest
import Reflection.Path
import Reflection.Proofs.Constant.Completeness
import Reflection.Proofs.Constant.Grammar
import Reflection.Proofs.Constant.Reading
import Reflection.Proofs.Constant.References
import Reflection.Proofs.Constant.Soundness
import Reflection.Proofs.Declaration.KeptText
import Reflection.Proofs.Declaration.Ledger
import Reflection.Proofs.Field.Outcome
import Reflection.Proofs.Number.Bitwise
import Reflection.Proofs.Program.Clauses
import Reflection.Proofs.Program.Events
import Reflection.Proofs.Program.Grammar
import Reflection.Proofs.Program.Passage
import Reflection.Proofs.Program.Places
import Reflection.Proofs.Program.Reading
import Reflection.Proofs.Program.Recovery
import Reflection.Proofs.Report
import Reflection.Proofs.Scope.Nesting
import Reflection.Proofs.Scope.Shift
import Reflection.Proofs.Scope.Step
import Reflection.Proofs.Token
import Reflection.Registry
import Reflection.Report
import Reflection.Scope
import Reflection.Scope.Traversal
import Reflection.Scope.Visitor
import Reflection.Settings
import Reflection.SourceFile
import Reflection.SyntaxTree
import Reflection.Table
import Reflection.Text.Blank
import Reflection.Text.Case
import Reflection.Text.CaseTable
import Reflection.Text.CodePoint
import Reflection.Text.CodeRange
import Reflection.Text.Digit
import Reflection.Text.Encoding
import Reflection.Text.Identifier
import Reflection.Text.IdentifierTable
import Reflection.Text.Json
import Reflection.Text.Line
import Reflection.Text.Margin
import Reflection.Text.PrintableTable
import Reflection.Text.Quoted
import Reflection.Text.WordTable
import Reflection.Token
import Reflection.Token.Stream
import Reflection.Value
import Reflection.Value.Display
import Reflection.Proofs.Field.Choice
import Reflection.Proofs.Field.Listing
import Reflection.Proofs.Field.Use
import Reflection.Proofs.Field.Encapsulation
import Reflection.Proofs.Constant.Escape
import Reflection.Proofs.Declaration.Completion
import Reflection.Proofs.Declaration.Filing
import Reflection.Proofs.Inspection.Query
import Reflection.Proofs.Inspection.History
import Reflection.Proofs.Declaration.Resolution
import Reflection.Proofs.Class.Linearization
import Reflection.Proofs.Class.Lineage
import Reflection.Proofs.Field.Inheritance
import Reflection.Proofs.Text.Encoding
import Reflection.Proofs.SyntaxTree
import Reflection.Proofs.Declaration.Evaluation
import Reflection.Proofs.Declaration.WellFormed
import Reflection.Proofs.Inspection.Modes
import Reflection.Proofs.Scope.Keywords
import Reflection.Proofs.Declaration.Members
import Reflection.Proofs.Token.Unplaced
import Reflection.Proofs.Constant.Unplaced
import Reflection.Proofs.Scope.Pairing
import Reflection.Proofs.Declaration.Contents
import Reflection.Proofs.Declaration.Pairing
import Reflection.Proofs.Declaration.Splicing
import Reflection.Proofs.Declaration.BetweenStatements
import Reflection.Proofs.Declaration.InProgram
import Reflection.Proofs.Declaration.GroupImport
import Reflection.Proofs.Declaration.Unended
import Reflection.Proofs.Declaration.HtmlBreak
import Reflection.Proofs.Declaration.Continuation
import Reflection.Proofs.Table
import Reflection.Proofs.Field.Permission
import Reflection.Proofs.Field.AllValues
import Reflection.Proofs.Text.Case
import Reflection.Proofs.Name
import Reflection.Proofs.Registry
import Reflection.Proofs.Declaration.Imports
import Reflection.Proofs.Declaration.Additions
import Reflection.Proofs.Name.Lookup
import Reflection.Proofs.Inspection.Elements
import Reflection.Proofs.Inspection.DeclaredNames
import Reflection.Proofs.Constant.Heredoc
import Reflection.Proofs.Constant.Interpolation
import Reflection.Proofs.Scope.Agreement
import Reflection.Proofs.Constant.Union
import Reflection.Proofs.Declaration.Declarators
import Reflection.Proofs.Declaration.ImportStatement
import Reflection.Proofs.Token.Braces
import Reflection.Proofs.Scope.Braces
import Reflection.Proofs.Number.IntegerText
import Reflection.Proofs.Constant.Kinds
import Reflection.Proofs.Constant.Chain
import Reflection.Proofs.Constant.Logic
import Reflection.Proofs.Constant.LogicalEvaluation
import Reflection.Proofs.Constant.Keys
import Reflection.Proofs.Constant.NumberLiteral
import Reflection.Proofs.Constant.Nesting
import Reflection.Proofs.Name.Kinds
import Reflection.Proofs.Declaration.Bodies
import Reflection.Proofs.Text.Line
import Reflection.Proofs.DocComment
import Reflection.Proofs.DocComment.Variable
import Reflection.Proofs.DocComment.Parameter
import Reflection.Proofs.DocComment.TypeForm
import Reflection.Proofs.Field.Lookup
import Reflection.Proofs.Field.Assignment
import Reflection.Proofs.Class.Arity
import Reflection.Proofs.Field.Accessor
import Reflection.Proofs.Field.Naming
import Reflection.Proofs.Field.MissingValue
import Reflection.Proofs.Class.Cache
import Reflection.Proofs.Loop
import Reflection.Proofs.Constant.Progress
import Reflection.Proofs.Declaration.Progress
import Reflection.Proofs.Scope.Range
import Reflection.Proofs.Token.Documentation
import Reflection.Proofs.DocComment.Tag
import Reflection.Proofs.Constant.Operation
import Reflection.Proofs.Constant.Division
import Reflection.Proofs.Name.Alike
import Reflection.Proofs.Registry.Current
