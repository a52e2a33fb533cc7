import Lox.Parser
import Lox.Reporting.Expression

/-!
# Reporting while reading programs

The readers of statements and programs with a sink that each of them hands on, and the two ways to
use a parser that reports. A name or a semicolon that is missing is reported where it is missed; the
faults of a program are collected from its rounds, which reported them already.
-/

namespace Lox

namespace ReportingReader

open Reading (refuse handOn handOn_reported)

/-- Close a statement. -/
def endRun (options : ReadingOptions) (stop : Token) (cause : Cause) (statement : Stmt)
    (tokens : List Token) (sink : Sink) : Reading Stmt × Sink :=
  match tokens with
  | [] =>
    if options.implicitSemicolon then (.accepted statement [], sink)
    else refuse sink ⟨stop, cause⟩ []
  | token :: rest =>
    if token.kind = .semicolon then (.accepted statement rest, sink)
    else refuse sink ⟨token, cause⟩ (token :: rest)

/-- Read an expression and close the statement made of it. -/
def valueRun (options : ReadingOptions) (stop : Token) (cause : Cause) (make : Expr → Stmt)
    (tokens : List Token) (sink : Sink) : Reading Stmt × Sink :=
  handOn (fun value => endRun options stop cause (make value))
    ((expression stop options.allowance).run tokens sink)

/-- Read what stands after the name of a declaration. -/
def initializerRun (options : ReadingOptions) (stop name : Token) (tokens : List Token)
    (sink : Sink) : Reading Stmt × Sink :=
  match tokens with
  | [] => endRun options stop .expectedSemicolonAfterDeclaration (.declaration name none) [] sink
  | token :: rest =>
    if token.kind = .equal then
      valueRun options stop .expectedSemicolonAfterDeclaration
        (fun value => .declaration name (some value)) rest sink
    else
      endRun options stop .expectedSemicolonAfterDeclaration (.declaration name none)
        (token :: rest) sink

/-- Read what stands after the word that opens a declaration. -/
def declarationRun (options : ReadingOptions) (stop : Token) (tokens : List Token)
    (sink : Sink) : Reading Stmt × Sink :=
  match tokens with
  | [] => refuse sink ⟨stop, .expectedVariableName⟩ []
  | token :: rest =>
    if token.kind = .identifier then initializerRun options stop token rest sink
    else refuse sink ⟨token, .expectedVariableName⟩ (token :: rest)

/-- Read one statement. -/
def statementRun (options : ReadingOptions) (stop : Token) (tokens : List Token) (sink : Sink) :
    Reading Stmt × Sink :=
  match tokens with
  | [] => refuse sink ⟨stop, .expectedExpression⟩ []
  | token :: rest =>
    if token.kind = .keyword .varWord then declarationRun options stop rest sink
    else if token.kind = .keyword .printWord then
      valueRun options stop .expectedSemicolonAfterPrint .print rest sink
    else
      valueRun options stop .expectedSemicolonAfterExpression .expression (token :: rest) sink

/-- A semicolon is reported once if it is missing. -/
theorem endRun_eq (options : ReadingOptions) (stop : Token) (cause : Cause) (statement : Stmt)
    (tokens : List Token) (sink : Sink) :
    endRun options stop cause statement tokens sink =
      (Reader.endRun options stop cause statement tokens).reported sink := by
  cases tokens with
  | nil =>
    simp only [endRun, Reader.endRun]
    split <;> rfl
  | cons token rest =>
    simp only [endRun, Reader.endRun]
    split <;> rfl

/-- A statement made of an expression is reported once if it has a fault. -/
theorem valueRun_eq (options : ReadingOptions) (stop : Token) (cause : Cause)
    (make : Expr → Stmt) (tokens : List Token) (sink : Sink) :
    valueRun options stop cause make tokens sink =
      (Reader.valueRun options stop cause make tokens).reported sink := by
  have hend : ∀ value rest sink, endRun options stop cause (make value) rest sink =
      (Reader.endRun options stop cause (make value) rest).reported sink :=
    fun value => endRun_eq options stop cause (make value)
  rw [valueRun, expression_run, handOn_reported hend, Reader.valueRun]
  cases (Reader.expression stop options.allowance).run tokens <;> rfl

/-- What follows the name of a declaration is reported once if it has a fault. -/
theorem initializerRun_eq (options : ReadingOptions) (stop name : Token) (tokens : List Token)
    (sink : Sink) :
    initializerRun options stop name tokens sink =
      (Reader.initializerRun options stop name tokens).reported sink := by
  cases tokens with
  | nil => exact endRun_eq options stop _ _ [] sink
  | cons token rest =>
    simp only [initializerRun, Reader.initializerRun]
    split
    · exact valueRun_eq options stop _ _ rest sink
    · exact endRun_eq options stop _ _ (token :: rest) sink

/-- What follows the word that opens a declaration is reported once if it has a fault. -/
theorem declarationRun_eq (options : ReadingOptions) (stop : Token) (tokens : List Token)
    (sink : Sink) :
    declarationRun options stop tokens sink =
      (Reader.declarationRun options stop tokens).reported sink := by
  cases tokens with
  | nil => rfl
  | cons token rest =>
    simp only [declarationRun, Reader.declarationRun]
    split
    · exact initializerRun_eq options stop token rest sink
    · rfl

/-- A statement is reported once if it has a fault. -/
theorem statementRun_eq (options : ReadingOptions) (stop : Token) (tokens : List Token)
    (sink : Sink) :
    statementRun options stop tokens sink =
      (Reader.statementRun options stop tokens).reported sink := by
  cases tokens with
  | nil => rfl
  | cons token rest =>
    simp only [statementRun, Reader.statementRun]
    split
    · exact declarationRun_eq options stop rest sink
    · split
      · exact valueRun_eq options stop _ _ rest sink
      · exact valueRun_eq options stop _ _ (token :: rest) sink

/-- A statement moves forward, whoever is reported to. -/
theorem statementRun_advances (options : ReadingOptions) (stop : Token) (tokens : List Token)
    (sink : Sink) : (statementRun options stop tokens sink).1.Advances tokens := by
  rw [statementRun_eq]
  exact Reader.statementRun_advances options stop tokens

/-- Read statements to the end: in order, what each round made of the tokens before it, and the sink
after the last one. -/
def program (options : ReadingOptions) (stop : Token) (tokens : List Token) (sink : Sink) :
    List (Except SyntaxFault Stmt) × Sink :=
  match tokens with
  | [] => ([], sink)
  | token :: rest =>
    match _taken : statementRun options stop (token :: rest) sink with
    | (.accepted statement after, sink') =>
      let others := program options stop after sink'
      (.ok statement :: others.1, others.2)
    | (.refused fault left, sink') =>
      let others := program options stop (Reader.resume left) sink'
      (.error fault :: others.1, others.2)
termination_by tokens.length
decreasing_by
  · have hadv := statementRun_advances options stop (token :: rest) sink
    rw [_taken] at hadv
    exact hadv.2
  · have hadv := statementRun_advances options stop (token :: rest) sink
    rw [_taken] at hadv
    exact Reader.length_resume_lt hadv

end ReportingReader

namespace Parser

/-- Read statements up to the first end of the source and report to the sink. -/
def programTo (sink : Sink) (parser : Parser) : (ProgramReading × Parser) × Sink :=
  let rounds := ReportingReader.program parser.options parser.stop parser.rest sink
  let faults := rounds.1.filterMap fun round =>
    match round with
    | .error fault => some fault
    | .ok _ => none
  let statements := rounds.1.filterMap Except.toOption
  ((⟨if faults = [] then statements else [], faults⟩, { parser with rest := [] }), rounds.2)

/-- Read one expression that takes all tokens up to the first end of the source and report to the
sink. -/
def expressionTo (sink : Sink) (parser : Parser) : (Except SyntaxFault Expr × Parser) × Sink :=
  let reader := ReportingReader.expression parser.stop parser.options.allowance
  match reader.run parser.rest sink with
  | (.refused fault rest, sink) => ((.error fault, { parser with rest := rest }), sink)
  | (.accepted value [], sink) => ((.ok value, { parser with rest := [] }), sink)
  | (.accepted _ (token :: rest), sink) =>
    ((.error ⟨token, .expectedEnd⟩, { parser with rest := token :: rest }),
      sink.error (.parse ⟨token, .expectedEnd⟩))

end Parser

end Lox
