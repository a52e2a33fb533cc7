import Lox.Command.Plan
import Lox.Evaluation.Interpreter
import Lox.Reporting.Program
import Lox.Reporting.Scan

/-!
# Running units of input

A unit is taken through scanning, reading and evaluation. Statements are read even if the source has
faults, so that all faults show at once; a single expression is not. Faults of either kind keep the
unit from being evaluated and from being written as a tree. Units that are run one after the other
share a workbench: one console, one reporter, one interpreter and one stream of records and reports.
-/

namespace Lox

/-- Where a unit comes from, which decides how it is read. -/
inductive UnitKind where
  /-- A file of statements. -/
  | script
  /-- A line of statements, the last of which may lack its semicolon. -/
  | line
  /-- One expression. -/
  | expression
  deriving DecidableEq, Repr

/-- How a unit ended. -/
structure UnitOutcome where
  /-- The text of the result, empty if there is none. -/
  text : Text := []
  /-- What went wrong. -/
  fault : Option Fault := none

/-- The outcome of an evaluation whose results have the given texts. -/
def UnitOutcome.ofExecution {α : Type} (text : α → Text) (execution : Execution α) :
    UnitOutcome where
  text :=
    match execution.outcome with
    | .ok result => text result
    | .error _ => []
  fault := execution.fault?

/-- What units are run with, one after the other. -/
structure Workbench where
  /-- What is written beside the output of programs. -/
  settings : Settings := {}
  /-- Where programs and the command write. -/
  console : Console := {}
  /-- Where faults are reported. -/
  reporter : Reporter := {}
  /-- What evaluates. -/
  interpreter : Interpreter := {}
  /-- Records and reports so far, in order. -/
  entries : List Entry := []

namespace Workbench

/-- Add a record to the stream. -/
def log (bench : Workbench) (record : Record) : Workbench :=
  { bench with entries := bench.entries ++ [.logged record] }

/-- Add a line that is no record to the stream. -/
def say (bench : Workbench) (text : Text) : Workbench :=
  { bench with entries := bench.entries ++ [.line text] }

/-- Take over what became of the reporter; what it has written since goes to the stream. -/
def adopt (bench : Workbench) (sink : Sink) : Workbench :=
  let reporter := sink.getD bench.reporter
  let news := reporter.written.drop bench.reporter.written.length
  { bench with reporter := reporter, entries := bench.entries ++ [.plain news] }

/-- The field of a record that tells a fault. -/
def errField (fault : Option Fault) : String × Option Text := ("err", fault.map Fault.message)

/-- Add a record of a step of the command. -/
def step (bench : Workbench) (message : String) (fields : List (String × Option Text))
    (fault : Option Fault) : Workbench :=
  bench.log (Record.of .debug message (fields ++ [errField fault]))

/-- Write lines to the console, as far as it takes them. -/
def showLines (bench : Workbench) (lines : List Text) : Workbench :=
  { bench with console := lines.foldl Console.writeLine bench.console }

/-- Write one token a line, if tokens are to be written. -/
def showTokens (bench : Workbench) (tokens : List Token) : Workbench :=
  if bench.settings.printTokens then bench.showLines (tokens.map Token.dump) else bench

/-- Write one tree a line, if trees are to be written. -/
def showTrees {α : Type} (bench : Workbench) (text : TreeStyle → α → Text) (trees : List α) :
    Workbench :=
  match bench.settings.style with
  | none => bench
  | some style => bench.showLines (trees.map (text style))

/-- Scan a source. -/
def scan (bench : Workbench) (source : Text) : Scan × Workbench :=
  let (scan, sink) := Scan.ofSourceTo (some bench.reporter) source
  let count := Text.ofNat scan.tokens.length
  let bench := (bench.adopt sink).step "scanned" [("tokens", some count)] scan.fault?
  (scan, bench.showTokens scan.tokens)

/-- Read a program. -/
def readProgram (bench : Workbench) (parser : Parser) : ProgramReading × Workbench :=
  let ((reading, _), sink) := parser.programTo (some bench.reporter)
  let count := Text.ofNat reading.statements.length
  (reading, (bench.adopt sink).step "parsed" [("statements", some count)] reading.fault?)

/-- Read an expression. -/
def readExpression (bench : Workbench) (parser : Parser) :
    Except SyntaxFault Expr × Workbench :=
  let ((result, _), sink) := parser.expressionTo (some bench.reporter)
  let (found, fault) :=
    match result with
    | .ok _ => (true, none)
    | .error fault => (false, some (Fault.parse fault))
  (result, (bench.adopt sink).step "parsed" [("expression", some (Text.ofBool found))] fault)

/-- Take notice of what an execution made known: a record of it, and a report if it is a fault. -/
def note (bench : Workbench) (notice : Notice) : Workbench :=
  let bench := bench.log notice.record
  match notice with
  | .executed _ _ => bench
  | .failed fault => bench.adopt (some (bench.reporter.runtimeError (some fault.toFault)))

/-- Take over what an execution did and what it left of the interpreter. -/
def settle {α : Type} (bench : Workbench) (message : String)
    (run : Execution α × Interpreter) : Workbench :=
  let bench := { bench with console := run.1.console, interpreter := run.2 }
  (run.1.notices.foldl note bench).step message [] run.1.fault?

/-- Execute statements. -/
def interpret (bench : Workbench) (statements : List Stmt) : UnitOutcome × Workbench :=
  let bench := bench.showTrees TreeStyle.statement statements
  let run := bench.interpreter.interpret bench.console statements
  (.ofExecution id run.1, bench.settle "interpreted" run)

/-- Evaluate an expression. -/
def evaluate (bench : Workbench) (value : Expr) : UnitOutcome × Workbench :=
  let bench := bench.showTrees TreeStyle.expression [value]
  let run := bench.interpreter.evaluate bench.console value
  (.ofExecution Value.textOf run.1, bench.settle "evaluated" run)

/-- Read and execute the statements of a source, whether it has faults or not. -/
def runStatements (bench : Workbench) (kind : UnitKind) (scan : Scan) :
    UnitOutcome × Workbench :=
  match Parser.ofTokens { implicitSemicolon := kind = .line } scan.tokens with
  | .error fault => ({ fault := some (.plain fault.message) }, bench)
  | .ok parser =>
    let (reading, bench) := bench.readProgram parser
    match Fault.join [scan.fault?, reading.fault?] with
    | some fault => ({ fault := some fault }, bench)
    | none => bench.interpret reading.statements

/-- Read and evaluate the expression of a source without faults. -/
def runExpression (bench : Workbench) (scan : Scan) : UnitOutcome × Workbench :=
  match scan.fault? with
  | some fault => ({ fault := some fault }, bench)
  | none =>
    match Parser.ofTokens {} scan.tokens with
    | .error fault => ({ fault := some (.plain fault.message) }, bench)
    | .ok parser =>
      match bench.readExpression parser with
      | (.error fault, bench) => ({ fault := Fault.join [some (.parse fault)] }, bench)
      | (.ok value, bench) => bench.evaluate value

/-- Forget that faults were reported. -/
def reset (bench : Workbench) : Workbench := { bench with reporter := bench.reporter.reset }

/-- Take one unit through scanning, reading and evaluation. -/
def run (bench : Workbench) (kind : UnitKind) (source : Text) : UnitOutcome × Workbench :=
  let (scan, bench) := bench.reset.scan source
  match kind with
  | .expression => bench.runExpression scan
  | .script | .line => bench.runStatements kind scan

/-- Add a record of the failure of a unit: its line if it has one, otherwise its message. -/
def logFailure (bench : Workbench) : Option Fault → Workbench
  | none => bench
  | some fault =>
    match fault.line? with
    | some line => bench.log (Record.of .info "unit failed" [("line", some (Text.ofInt line))])
    | none => bench.log (Record.of .info "unit failed" [errField (some fault)])

/-- Write a result on a line of its own, if there is one. -/
def echo (bench : Workbench) (text : Text) : Workbench :=
  if text = [] then bench else bench.showLines [text]

end Workbench

end Lox
