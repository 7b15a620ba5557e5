import FlatNet.Catalogue.Device
import FlatNet.Catalogue.Primitive
import FlatNet.Circuit.Basic
import FlatNet.Circuit.Completion
import FlatNet.Circuit.Expansion
import FlatNet.Circuit.Globals
import FlatNet.Circuit.Instance
import FlatNet.CommandLine
import FlatNet.Compilation
import FlatNet.Definition
import FlatNet.Diagnostic
import FlatNet.Disk.Basic
import FlatNet.Disk.FileTree
import FlatNet.Disk.Path
import FlatNet.Expr.Basic
import FlatNet.Expr.Parser
import FlatNet.Expr.Printer
import FlatNet.Expr.Token
import FlatNet.Library.Basic
import FlatNet.Library.Loading
import FlatNet.Library.Standard
import FlatNet.Main
import FlatNet.Names
import FlatNet.Number.Binary64
import FlatNet.Number.Decimal
import FlatNet.Number.Format
import FlatNet.Number.Literal
import FlatNet.Number.Power
import FlatNet.Number.Scale
import FlatNet.Number.Shortest
import FlatNet.Problem
import FlatNet.Reading.Line
import FlatNet.Reading.References
import FlatNet.Reading.Source
import FlatNet.Resolution
import FlatNet.Scope
import FlatNet.Text.CharClass
import FlatNet.Text.CharTable
import FlatNet.Text.Lines
import FlatNet.Text.LowerCase
import FlatNet.Token.Basic
import FlatNet.Token.Lexer
import FlatNet.Token.LogicalLine
import FlatNet.Workspace
import FlatNet.Proofs.NameMap
import FlatNet.Proofs.Element
import FlatNet.Proofs.Scope
import FlatNet.Proofs.Resolution
import FlatNet.Proofs.Lookup
import FlatNet.Proofs.Regular
import FlatNet.Proofs.Reading.Line
import FlatNet.Proofs.Reading.Source
import FlatNet.Proofs.Library.Loading
import FlatNet.Proofs.Globals
import FlatNet.Proofs.Completion
import FlatNet.Proofs.Instance.Copies
import FlatNet.Proofs.Instance.Binding
import FlatNet.Proofs.Instance.Definitions
import FlatNet.Proofs.Expansion.Occurrence
import FlatNet.Proofs.Expansion.FlatName
import FlatNet.Proofs.Expansion.Paths
import FlatNet.Proofs.Expansion.Queue
import FlatNet.Proofs.Expansion.QuietRun
import FlatNet.Proofs.Expansion.Leaves
import FlatNet.Proofs.Expansion.Run
import FlatNet.Proofs.Expansion.WellFormed
import FlatNet.Proofs.Expansion.Parameters
import FlatNet.Proofs.Compilation
import FlatNet.Proofs.Accepted
import FlatNet.Proofs.Nets
import FlatNet.Proofs.Scopes
import FlatNet.Proofs.Readers
import FlatNet.Proofs.Token
import FlatNet.Proofs.Reading.Action
import FlatNet.Proofs.Reading.Run
import FlatNet.Proofs.Library.Frame
import FlatNet.Proofs.Reading.Netlist
import FlatNet.Proofs.Reading.Draft
import FlatNet.Proofs.Library.Silenced
import FlatNet.Proofs.Library.Standard
import FlatNet.Proofs.Reading.Outline
import FlatNet.Proofs.Reading.Blame
import FlatNet.Proofs.Library.Settled
import FlatNet.Proofs.Promotion
import FlatNet.Proofs.Unknowns
import FlatNet.Proofs.Verdict
import FlatNet.Proofs.Expansion.Recorded
import FlatNet.Proofs.Bindings
import FlatNet.Proofs.Simultaneous
import FlatNet.Proofs.Soundness
import FlatNet.Proofs.Repetition
import FlatNet.Proofs.Expr.Grammar
import FlatNet.Proofs.Expr.Parser
import FlatNet.Proofs.Reading.Journal
import FlatNet.Proofs.Library.Nesting
import FlatNet.Proofs.Library.Parsed
import FlatNet.Proofs.Library.Undisturbed
import FlatNet.Proofs.Number.Sign
import FlatNet.Proofs.Number.Literal
import FlatNet.Proofs.Number.Numeral
import FlatNet.Proofs.Expr.RoundTrip
import FlatNet.Proofs.Expr.Scanner
import FlatNet.Proofs.Expr.Printer
import FlatNet.Proofs.Expr.Value
import FlatNet.Proofs.Expr.Names
import FlatNet.Proofs.Reading.Worded
import FlatNet.Proofs.Library.Worded
import FlatNet.Proofs.Expansion.Worded
import FlatNet.Proofs.Printing
import FlatNet.Proofs.Expansion.Limits
import FlatNet.Proofs.Expansion.Missing
import FlatNet.Proofs.Library.Promotions
import FlatNet.Proofs.Library.History
import FlatNet.Proofs.Library.Sharing
import FlatNet.Proofs.Closure
import FlatNet.Proofs.Pieces
import FlatNet.Proofs.Ending
import FlatNet.Proofs.Cutting
import FlatNet.Proofs.Blanks
import FlatNet.Proofs.Continuation
import FlatNet.Proofs.Reading.References
import FlatNet.Proofs.Reading.Block
import FlatNet.Proofs.Reading.Duplicate
import FlatNet.Proofs.Reading.Tally
import FlatNet.Proofs.Number.Scale
import FlatNet.Proofs.Suffix
import FlatNet.Proofs.Ports
import FlatNet.Proofs.CrossReferences
import FlatNet.Proofs.Instance.Memory
import FlatNet.Proofs.Instance.Order
import FlatNet.Proofs.Instance.Steady
import FlatNet.Proofs.Instance.Visiting
import FlatNet.Proofs.Laplace.Check
import FlatNet.Proofs.Laplace.Instance
import FlatNet.Proofs.Laplace.Circuit
import FlatNet.Proofs.Reading.Exchange
import FlatNet.Proofs.LineEndings
import FlatNet.Proofs.Title
import FlatNet.Proofs.Faults
import FlatNet.Proofs.Numerals
import FlatNet.Proofs.Places
import FlatNet.Proofs.Expr.Refusal
import FlatNet.Proofs.Expr.Substitution
import FlatNet.Proofs.Reading.Stack
import FlatNet.Proofs.Library.Stack
