import Pipeline.Bindings
import Pipeline.BuildError
import Pipeline.CommandLine
import Pipeline.Decimal.Binary64
import Pipeline.Decimal.Layout
import Pipeline.Decimal.Numeral
import Pipeline.Decimal.Shortest
import Pipeline.Evaluator
import Pipeline.Event
import Pipeline.Expr.Basic
import Pipeline.Expr.Eval
import Pipeline.Expr.Lexer
import Pipeline.Expr.Parser
import Pipeline.Expr.Token
import Pipeline.Files
import Pipeline.Host
import Pipeline.Interpreter
import Pipeline.Item
import Pipeline.Main
import Pipeline.Marker
import Pipeline.Modules
import Pipeline.Phrase
import Pipeline.Plan
import Pipeline.Prepared
import Pipeline.Printer
import Pipeline.Program
import Pipeline.Sequence
import Pipeline.Session
import Pipeline.Settings.Basic
import Pipeline.Settings.Document
import Pipeline.Settings.Text
import Pipeline.Shell.Arithmetic
import Pipeline.Shell.Expansion
import Pipeline.Shell.Lexer
import Pipeline.Shell.Machine
import Pipeline.Shell.Parser
import Pipeline.Shell.Run
import Pipeline.Shell.Runner
import Pipeline.Shell.Syntax
import Pipeline.Shell.Utility
import Pipeline.Stage.Apply
import Pipeline.Stage.Basic
import Pipeline.State
import Pipeline.Template
import Pipeline.Text.Blank
import Pipeline.Text.Case
import Pipeline.Text.CaseData
import Pipeline.Text.Lines
import Pipeline.Text.Split
import Pipeline.Text.Utf8
import Pipeline.Trace
import Pipeline.Traced
import Pipeline.Value.Basic
import Pipeline.Value.Reader
import Pipeline.Value.Writer
import Pipeline.Proofs.Building
import Pipeline.Proofs.Meaning
import Pipeline.Proofs.Registry
import Pipeline.Proofs.DepthFirst
import Pipeline.Proofs.Lists
import Pipeline.Proofs.Course
import Pipeline.Proofs.Handles
import Pipeline.Proofs.Renaming
import Pipeline.Proofs.Stack
import Pipeline.Proofs.Naming
import Pipeline.Proofs.Undo
import Pipeline.Proofs.Independence
import Pipeline.Proofs.Printing
import Pipeline.Proofs.Keeping
import Pipeline.Proofs.Failures
import Pipeline.Proofs.Grammar
import Pipeline.Proofs.Accounts
import Pipeline.Proofs.Parsing
import Pipeline.Proofs.Malformed
import Pipeline.Proofs.Mentions
import Pipeline.Proofs.Bookkeeping
import Pipeline.Proofs.Lexing
import Pipeline.Proofs.Extent
import Pipeline.Proofs.Loading
import Pipeline.Proofs.Whole
import Pipeline.Proofs.ReadingBack
import Pipeline.Proofs.Lossless
import Pipeline.Proofs.Refusals
import Pipeline.Proofs.Templates
import Pipeline.Proofs.Holes
import Pipeline.Proofs.Materializing
import Pipeline.Proofs.Partition
import Pipeline.Proofs.Notes
import Pipeline.Proofs.Lockstep
import Pipeline.Proofs.Memoizing
import Pipeline.Proofs.Uses
import Pipeline.Proofs.Keys
import Pipeline.Proofs.Splitting
import Pipeline.Proofs.Passing
import Pipeline.Proofs.Piping
