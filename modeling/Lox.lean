import Lox.Command.App
import Lox.Command.Flags
import Lox.Command.Lines
import Lox.Command.Pipeline
import Lox.Command.Plan
import Lox.Evaluation.Console
import Lox.Evaluation.Environment
import Lox.Evaluation.Execution
import Lox.Evaluation.Expression
import Lox.Evaluation.Interpreter
import Lox.Evaluation.Operators
import Lox.Fault.Basic
import Lox.Fault.Cause
import Lox.Fault.Reporter
import Lox.Log.Record
import Lox.Main
import Lox.Number.Binary64
import Lox.Number.Decimal
import Lox.Number.Layout
import Lox.Number.Shortest
import Lox.Parser
import Lox.Proofs.Command.Calls
import Lox.Proofs.Command.Diagnosis
import Lox.Proofs.Command.Evaluation
import Lox.Proofs.Command.ExitCode
import Lox.Proofs.Command.Independence
import Lox.Proofs.Command.Prompt
import Lox.Proofs.Command.TokenDump
import Lox.Proofs.Command.Workbench
import Lox.Proofs.Cursor.Agreement
import Lox.Proofs.Cursor.Safety
import Lox.Proofs.Cursor.Walk
import Lox.Proofs.Diagnostics
import Lox.Proofs.Evaluation.LineIndependence
import Lox.Proofs.Evaluation.Listing
import Lox.Proofs.Evaluation.ReadBack
import Lox.Proofs.Evaluation.Safety
import Lox.Proofs.Evaluation.Scope
import Lox.Proofs.Evaluation.StackMachine
import Lox.Proofs.Evaluation.Statement
import Lox.Proofs.Evaluation.Truncation
import Lox.Proofs.Evaluation.Undisturbed
import Lox.Proofs.Number.ReadBack
import Lox.Proofs.Number.Rounding
import Lox.Proofs.Number.Sign
import Lox.Proofs.Pipeline
import Lox.Proofs.Reading.Allowance
import Lox.Proofs.Reading.Expression
import Lox.Proofs.Reading.FaultOrder
import Lox.Proofs.Reading.FirstFault
import Lox.Proofs.Reading.Grammar
import Lox.Proofs.Reading.Locality
import Lox.Proofs.Reading.NestingLimit
import Lox.Proofs.Reading.Program
import Lox.Proofs.Reading.Recovery
import Lox.Proofs.Reading.Refusal
import Lox.Proofs.Reading.Tiling
import Lox.Proofs.Reading.Unlined
import Lox.Proofs.Reading.ViablePrefix
import Lox.Proofs.Reporting.Agreement
import Lox.Proofs.Reporting.History
import Lox.Proofs.Reporting.Lines
import Lox.Proofs.Source.LineBreak
import Lox.Proofs.Source.LineCount
import Lox.Proofs.Source.LineOrder
import Lox.Proofs.Source.Rescan
import Lox.Proofs.Source.TokenClass
import Lox.Proofs.Source.Tokenisation
import Lox.Proofs.Text.Lines
import Lox.Proofs.Text.Quoted
import Lox.Proofs.Text.Utf8
import Lox.Proofs.Tree.Bracketed
import Lox.Proofs.Tree.Legible
import Lox.Proofs.Tree.ReversePolish
import Lox.Reading.Basic
import Lox.Reading.Expression
import Lox.Reading.Program
import Lox.Reporting.Basic
import Lox.Reporting.Expression
import Lox.Reporting.Program
import Lox.Reporting.Scan
import Lox.Session
import Lox.Source.Scan
import Lox.Source.Segment
import Lox.Text.Basic
import Lox.Text.Blank
import Lox.Text.Logfmt
import Lox.Text.Printable
import Lox.Text.Quoted
import Lox.Text.Utf8
import Lox.Token.Basic
import Lox.Token.Keyword
import Lox.Token.Kind
import Lox.Token.Literal
import Lox.Tree.Basic
import Lox.Tree.Bracketed
import Lox.Tree.Postorder
import Lox.Tree.ReversePolish
import Lox.Value
