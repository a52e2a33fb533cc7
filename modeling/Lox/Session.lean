import Lox.Evaluation.Execution
import Lox.Reporting.Program
import Lox.Reporting.Scan

/-!
# Sessions

A session runs units one after the other on one console and one reporter. A unit is a source, which
has to be scanned and read before it is run, or a tree. A fault of the source keeps the unit from
being read and a fault of reading from being run. Variables do not outlive their unit.
-/

namespace Lox

/-- Something that can be run. -/
inductive Tree where
  /-- Statements to execute. -/
  | program (statements : List Stmt)
  /-- An expression to evaluate. -/
  | expression (value : Expr)

/-- How a source is to be read. -/
inductive Mode where
  /-- As statements. -/
  | program
  /-- As one expression. -/
  | expression
  deriving DecidableEq, Repr

/-- How far a unit got. -/
inductive Stage where
  /-- The source has faults. -/
  | scan
  /-- The tokens could not be read. -/
  | parse
  /-- The tree was run, with or without a fault. -/
  | run
  deriving DecidableEq, Repr

/-- What running a tree yields. -/
inductive Yield where
  /-- Nothing, because of a fault. -/
  | nothing
  /-- The text of a program. -/
  | text (text : Text)
  /-- The value of an expression. -/
  | value (value : Option Value)

/-- How one unit went. -/
structure Step where
  /-- How far the unit got. -/
  stage : Stage
  /-- What went wrong. -/
  fault : Option Fault
  /-- What the execution made known. -/
  notices : List Notice := []
  /-- What the execution yields. -/
  yield : Yield := .nothing

/-- The state that units share. -/
structure Session where
  /-- How sources are read. -/
  options : ReadingOptions := {}
  /-- Faults of evaluation go to the session's reporter, which otherwise takes no note of them. -/
  sharesReporter : Bool := true
  /-- Where programs write. -/
  console : Console := {}
  /-- Where faults are reported. -/
  reporter : Reporter := {}

namespace Session

/-- Take over what a sink made of the session's reporter. -/
def reportedTo (session : Session) (sink : Sink) : Session :=
  { session with reporter := sink.getD session.reporter }

/-- Scan a source. -/
def scan (session : Session) (source : Text) : Scan × Session :=
  let (scan, sink) := Scan.ofSourceTo (some session.reporter) source
  (scan, session.reportedTo sink)

/-- Read a program. -/
def readProgram (session : Session) (parser : Parser) : ProgramReading × Session :=
  let ((reading, _), sink) := parser.programTo (some session.reporter)
  (reading, session.reportedTo sink)

/-- Read an expression. -/
def readExpression (session : Session) (parser : Parser) : Except SyntaxFault Expr × Session :=
  let ((result, _), sink) := parser.expressionTo (some session.reporter)
  (result, session.reportedTo sink)

/-- Report a fault of evaluation. -/
def reportRuntimeError (session : Session) (fault : Fault) : Session :=
  { session with
    reporter :=
      if session.sharesReporter then session.reporter.runtimeError (some fault)
      else session.reporter.mention (some fault) }

/-- Take over what an execution did. -/
def settle {α : Type} (session : Session) (execution : Execution α) : Session :=
  execution.reports.foldl reportRuntimeError { session with console := execution.console }

/-- Run a tree. -/
def run (session : Session) : Tree → Step × Session
  | .program statements =>
    let execution := Execution.program session.console statements
    let text :=
      match execution.outcome with
      | .ok text => text
      | .error _ => []
    (⟨.run, execution.fault?, execution.notices, .text text⟩, session.settle execution)
  | .expression value =>
    let execution := Execution.expression session.console value
    let yield :=
      match execution.outcome with
      | .ok value => Yield.value value
      | .error _ => Yield.nothing
    (⟨.run, execution.fault?, execution.notices, yield⟩, session.settle execution)

/-- Read tokens and run what was read. -/
def readAndRun (session : Session) (mode : Mode) (parser : Parser) : Step × Session :=
  match mode with
  | .program =>
    let (reading, session) := session.readProgram parser
    match reading.fault? with
    | some fault => ({ stage := .parse, fault := some fault }, session)
    | none => session.run (.program reading.statements)
  | .expression =>
    match session.readExpression parser with
    | (.error fault, session) => ({ stage := .parse, fault := some (.parse fault) }, session)
    | (.ok value, session) => session.run (.expression value)

/-- Scan a source, read its tokens and run what was read. -/
def runSource (session : Session) (mode : Mode) (source : Text) : Step × Session :=
  let (scan, session) := session.scan source
  match scan.fault? with
  | some fault => ({ stage := .scan, fault := some fault }, session)
  | none =>
    match Parser.ofTokens session.options scan.tokens with
    | .error fault => ({ stage := .parse, fault := some (.plain fault.message) }, session)
    | .ok parser => session.readAndRun mode parser

/-- Forget that faults were reported. -/
def reset (session : Session) : Session := { session with reporter := session.reporter.reset }

end Session

end Lox
