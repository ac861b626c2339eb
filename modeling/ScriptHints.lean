import ScriptHints.Command.Arguments
import ScriptHints.Command.Excerpt
import ScriptHints.Command.Failure
import ScriptHints.Command.Invocation
import ScriptHints.Command.Listing
import ScriptHints.Command.Run
import ScriptHints.Diagnostic
import ScriptHints.Grammar.Expression
import ScriptHints.Grammar.Function
import ScriptHints.Grammar.Goal
import ScriptHints.Grammar.Parse
import ScriptHints.Grammar.Reader
import ScriptHints.Grammar.Recovery
import ScriptHints.Grammar.Statement
import ScriptHints.Grammar.SyntaxError
import ScriptHints.Inference.Classify
import ScriptHints.Inference.EnteredText
import ScriptHints.Inference.OperandFold
import ScriptHints.Inference.SelfReference
import ScriptHints.Inference.Signature
import ScriptHints.Json.Numbers
import ScriptHints.Json.Printer
import ScriptHints.Json.Reader
import ScriptHints.Json.Skip
import ScriptHints.Json.Strings
import ScriptHints.Main
import ScriptHints.Number.Binary64
import ScriptHints.Number.Decimal
import ScriptHints.Number.Shortest
import ScriptHints.Number.Shown
import ScriptHints.Proofs.Reader.Budget
import ScriptHints.Proofs.Reader.Composition
import ScriptHints.Proofs.Reader.ExpressionRules
import ScriptHints.Proofs.Reader.Outcome
import ScriptHints.Proofs.Reader.Progress
import ScriptHints.Proofs.Reader.StatementRules
import ScriptHints.Proofs.Recovery.Conservative
import ScriptHints.Proofs.Recovery.Reports
import ScriptHints.Proofs.Recovery.Script
import ScriptHints.Proofs.Recovery.Tiling
import ScriptHints.Proofs.Syntax.Growth
import ScriptHints.Proofs.Recovery.FirstReport
import ScriptHints.Proofs.Token.Ended
import ScriptHints.Syntax.Basic
import ScriptHints.Syntax.Node
import ScriptHints.Syntax.Operator
import ScriptHints.Syntax.Source
import ScriptHints.Syntax.Span
import ScriptHints.Syntax.Walk
import ScriptHints.Text.Alphabetic
import ScriptHints.Text.Blank
import ScriptHints.Text.CharClass
import ScriptHints.Text.CodePoint
import ScriptHints.Text.Numeric
import ScriptHints.Text.Place
import ScriptHints.Text.Quoted
import ScriptHints.Text.Visible
import ScriptHints.Token.Basic
import ScriptHints.Token.Comment
import ScriptHints.Token.Item
import ScriptHints.Token.Keyword
import ScriptHints.Token.Lexer
import ScriptHints.Token.LexicalError
import ScriptHints.Token.NumericLiteral
import ScriptHints.Token.Punctuator
import ScriptHints.Token.Reading
import ScriptHints.Token.RegExpLiteral
import ScriptHints.Token.StringLiteral
import ScriptHints.Token.Word
import ScriptHints.TypeInfo.Declaration
import ScriptHints.TypeInfo.DeclarationReader
import ScriptHints.TypeInfo.Registry
import ScriptHints.Proofs.Token.Scanners
import ScriptHints.Proofs.Token.Local
import ScriptHints.Proofs.Token.Lossless
import ScriptHints.Proofs.Token.Passage
import ScriptHints.Proofs.Token.Respaced
import ScriptHints.Proofs.Token.Placed
import ScriptHints.Proofs.Tree.ExpressionsGrown
import ScriptHints.Proofs.Tree.Innermost
import ScriptHints.Proofs.Tree.Operands
import ScriptHints.Proofs.Tree.Precedence
import ScriptHints.Proofs.Bytes.Cursor
import ScriptHints.Proofs.Bytes.Items
import ScriptHints.Proofs.Token.Positions
import ScriptHints.Proofs.Token.Quoted
import ScriptHints.Proofs.Token.Literals
import ScriptHints.Proofs.Syntax.OperatorTree
import ScriptHints.Proofs.Token.Chain
import ScriptHints.Proofs.Reader.Chain
import ScriptHints.Proofs.Inference.Answers
import ScriptHints.Proofs.Inference.OperandTypes
import ScriptHints.Proofs.Safety.Requests
import ScriptHints.Proofs.Bytes.Run
import ScriptHints.Proofs.Safety.Faults
import ScriptHints.Proofs.Parallel.Basic
import ScriptHints.Proofs.Parallel.Steps
import ScriptHints.Proofs.Parallel.Expressions
import ScriptHints.Proofs.Parallel.Statements
import ScriptHints.Proofs.Parallel.Transport
import ScriptHints.Proofs.Parallel.Runs
import ScriptHints.Proofs.Settings.Reader
import ScriptHints.Proofs.Settings.Expressions
import ScriptHints.Proofs.Settings.Statements
import ScriptHints.Proofs.Settings.Runs
import ScriptHints.Proofs.Parallel.Layout
import ScriptHints.Proofs.Parallel.Facts
import ScriptHints.Proofs.Parallel.Cut
import ScriptHints.Proofs.Parallel.Follows
import ScriptHints.Proofs.Token.Joined
import ScriptHints.Proofs.Tree.Copied
import ScriptHints.Proofs.Parallel.Joined
import ScriptHints.Proofs.Reader.Heads
import ScriptHints.Proofs.Parallel.Heads
import ScriptHints.Proofs.Inference.Headers
import ScriptHints.Proofs.Parallel.Inserted
import ScriptHints.Proofs.Parallel.Terminated
import ScriptHints.Proofs.Parallel.Loops
import ScriptHints.Proofs.Parallel.Parts
import ScriptHints.Proofs.Parallel.Iterations
import ScriptHints.Proofs.Parallel.Standalone
import ScriptHints.Proofs.Parallel.Subexpressions
import ScriptHints.Proofs.Token.Sliced
import ScriptHints.Proofs.Token.Spaced
import ScriptHints.Proofs.Parallel.Extents
import ScriptHints.Proofs.Parallel.Slices
import ScriptHints.Proofs.TypeInfo.ByteOrder
import ScriptHints.Proofs.TypeInfo.Requests
import ScriptHints.Proofs.Token.LineBreaks
import ScriptHints.Proofs.Token.Words
import ScriptHints.Proofs.Tree.Fitted
import ScriptHints.Proofs.Tree.FittedRules
import ScriptHints.Proofs.Tree.Paths
import ScriptHints.Proofs.Tree.Leading
import ScriptHints.Proofs.Inference.SelfReferences
import ScriptHints.Proofs.Inference.SignatureKeys
import ScriptHints.Proofs.Json.Reads
import ScriptHints.Proofs.Json.Spelling
import ScriptHints.Proofs.Json.Compact
import ScriptHints.Proofs.TypeInfo.Spelled
import ScriptHints.Proofs.TypeInfo.RoundTrip
import ScriptHints.Proofs.Command.Excerpts
import ScriptHints.Proofs.Token.Numerals
import ScriptHints.Proofs.Token.NumericEscapes
import ScriptHints.Proofs.Recovery.ReportedSpans
import ScriptHints.Proofs.Token.SourceLines
import ScriptHints.Proofs.Parallel.Substitution
import ScriptHints.Proofs.Parallel.MemberNames
import ScriptHints.Proofs.Syntax.Renaming
import ScriptHints.Proofs.Token.MemberNames
import ScriptHints.Proofs.Syntax.Adoption
import ScriptHints.Proofs.Tree.PreOrder
import ScriptHints.Proofs.Command.Listings
import ScriptHints.Proofs.Token.Repeated
import ScriptHints.Proofs.Reader.Unbroken
import ScriptHints.Proofs.Recovery.Unskipped
import ScriptHints.Proofs.Token.SingleLine
import ScriptHints.Proofs.Syntax.Renderer
import ScriptHints.Proofs.Syntax.Rendering
import ScriptHints.Proofs.Syntax.Indentation
import ScriptHints.Proofs.Tree.RenderedInPlace
import ScriptHints.Proofs.Syntax.Spans
