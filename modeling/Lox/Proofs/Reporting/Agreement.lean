import Lox.Proofs.Reading.Program
import Lox.Reporting.Program
import Lox.Reporting.Scan

/-!
# Reports agree with what is returned

Scanning and reading report each fault in the middle of their work and return all of them at the
end. Both ways lead to the same: tokens, trees and faults are those of scanning and reading without
reports, and the sink is as if exactly the returned faults had been reported to it, in their order.
-/

namespace Lox

namespace Reporter

/-- Several reports in order are the first one and then the others. -/
theorem errors_cons (reporter : Reporter) (fault : Fault) (faults : List Fault) :
    reporter.errors (fault :: faults) = (reporter.error (some fault)).errors faults :=
  rfl

/-- Reports are written in order, each on a line of its own. -/
theorem errors_written (reporter : Reporter) (faults : List Fault) :
    (reporter.errors faults).written =
      reporter.written ++ faults.flatMap fun fault => Text.line fault.message := by
  induction faults generalizing reporter with
  | nil => exact (List.append_nil reporter.written).symm
  | cons fault faults ih =>
    rw [errors_cons, ih, List.flatMap_cons, ← List.append_assoc]
    rfl

/-- A reporter remembers that something was reported to it. -/
theorem errors_hadError (reporter : Reporter) (faults : List Fault) :
    (reporter.errors faults).hadError = (reporter.hadError || !faults.isEmpty) := by
  induction faults generalizing reporter with
  | nil => exact (Bool.or_false reporter.hadError).symm
  | cons fault faults ih => simp [errors_cons, ih, error]

/-- Faults of the source and of reading are not taken for faults of evaluation. -/
theorem errors_hadRuntimeError (reporter : Reporter) (faults : List Fault) :
    (reporter.errors faults).hadRuntimeError = reporter.hadRuntimeError := by
  induction faults generalizing reporter with
  | nil => rfl
  | cons fault faults ih => exact ih (reporter.error (some fault))

end Reporter

/-- Report several faults of the source or of reading in order. -/
def Sink.errors (sink : Sink) (faults : List Fault) : Sink :=
  sink.map fun reporter => reporter.errors faults

namespace Sink

/-- No report leaves a sink as it is. -/
theorem errors_nil (sink : Sink) : sink.errors [] = sink := by
  cases sink <;> rfl

/-- Several reports in order are the first one and then the others. -/
theorem errors_cons (sink : Sink) (fault : Fault) (faults : List Fault) :
    sink.errors (fault :: faults) = (sink.error fault).errors faults := by
  cases sink <;> rfl

end Sink

namespace ReportingReader

/-- The faults of rounds as they are reported. -/
def reports (rounds : List (Except SyntaxFault Stmt)) : List Fault :=
  (rounds.filterMap Reader.fault?).map .parse

/-- Rounds make the same of the tokens with and without reports, and their faults are reported once
and in order. -/
theorem program_eq (options : ReadingOptions) (stop : Token) (tokens : List Token) (sink : Sink) :
    program options stop tokens sink =
      (Reader.program options stop tokens,
        sink.errors (reports (Reader.program options stop tokens))) := by
  fun_induction program options stop tokens sink with
  | case1 sink =>
    rw [Reader.program]
    exact Prod.ext rfl sink.errors_nil.symm
  | case2 sink token rest statement after later htaken others ih =>
    rw [statementRun_eq] at htaken
    obtain ⟨hrun, hlater⟩ := Prod.mk.inj htaken
    rw [hrun] at hlater
    cases hlater
    rw [Reader.program_accepted hrun]
    simp only [others, ih]
    rfl
  | case3 sink token rest fault left later htaken others ih =>
    rw [statementRun_eq] at htaken
    obtain ⟨hrun, hlater⟩ := Prod.mk.inj htaken
    rw [hrun] at hlater
    cases hlater
    have hreports : ∀ rounds, reports (.error fault :: rounds) = .parse fault :: reports rounds :=
      fun _ => rfl
    rw [Reader.program_refused hrun, hreports, sink.errors_cons]
    simp only [others, ih]
    rfl

end ReportingReader

namespace Parser

/-- Reading a program makes the same of the tokens with and without reports, and what it returns is
what was reported. -/
theorem programTo_eq (sink : Sink) (parser : Parser) :
    parser.programTo sink = (parser.program, sink.errors parser.program.1.reports) := by
  unfold programTo
  rw [ReportingReader.program_eq]
  rfl

/-- Reading an expression makes the same of the tokens with and without reports, and what it returns
is what was reported. -/
theorem expressionTo_eq (sink : Sink) (parser : Parser) :
    parser.expressionTo sink =
      (parser.expression,
        match parser.expression.1 with
        | .error fault => sink.error (.parse fault)
        | .ok _ => sink) := by
  simp only [expressionTo, expression, ReportingReader.expression_run]
  cases (Reader.expression parser.stop parser.options.allowance).run parser.rest with
  | refused fault rest => rfl
  | accepted value rest => cases rest <;> rfl

end Parser

namespace Scan

/-- Taking segments collects their tokens and faults in order and reports the faults in that
order. -/
theorem foldl_takeSegment (pieces : List (Segment × Nat)) (scan : Scan) (sink : Sink) :
    pieces.foldl takeSegment (scan, sink) =
      ({ scan with
          tokens := scan.tokens ++ pieces.filterMap Segment.token?
          faults := scan.faults ++ pieces.filterMap Segment.fault? },
        sink.errors ((pieces.filterMap Segment.fault?).map .scan)) := by
  induction pieces generalizing scan sink with
  | nil => simp [Sink.errors_nil]
  | cons piece pieces ih =>
    rw [List.foldl_cons, takeSegment, List.filterMap_cons, List.filterMap_cons]
    cases htoken : Segment.token? piece <;> cases hfault : Segment.fault? piece <;>
      simp [ih, Sink.errors_cons]

/-- Scanning makes the same of the source with and without reports, and what it returns is what was
reported. -/
theorem ofSourceTo_eq (sink : Sink) (source : Text) :
    ofSourceTo sink source = (ofSource source, sink.errors (ofSource source).reports) := by
  simp only [ofSourceTo, foldl_takeSegment, List.nil_append]
  rfl

end Scan

end Lox
