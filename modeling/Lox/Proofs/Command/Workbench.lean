import Lox.Command.App
import Lox.Proofs.Reporting.History

/-!
# What a workbench takes from each step

Every step of a unit is described by what it adds: lines to the console as far as that takes them,
faults to the reporter, entries to the stream. A reporter that is used in the middle of a step adds
to the stream what it wrote, so the stream shows exactly the reported faults.
-/

namespace Lox

namespace Console

/-- A console that fails takes no line. -/
theorem foldl_writeLine_of_fails {console : Console} (h : console.fails = true)
    (lines : List Text) : lines.foldl writeLine console = console := by
  induction lines with
  | nil => rfl
  | cons line lines ih =>
    have hline : console.writeLine line = console := by
      rw [writeLine, write, write?, if_pos h]
      rfl
    rw [List.foldl_cons, hline]
    exact ih

/-- Lines are taken in order until the console fails, and all of them if it never does. -/
theorem foldl_writeLine (console : Console) (lines : List Text) :
    ∃ taken, taken <+: lines ∧ (console.failAfter = none → taken = lines) ∧
      lines.foldl writeLine console =
        { console with writes := console.writes ++ taken.map Text.line } := by
  induction lines generalizing console with
  | nil => exact ⟨[], List.nil_prefix, fun _ => rfl, by simp⟩
  | cons line lines ih =>
    cases hfails : console.fails with
    | true =>
      refine ⟨[], List.nil_prefix, fun hlimit => ?_, ?_⟩
      · rw [fails, hlimit] at hfails
        cases hfails
      · rw [foldl_writeLine_of_fails hfails]
        simp
    | false =>
      have hline : console.writeLine line =
          { console with writes := console.writes ++ [Text.line line] } := by
        rw [writeLine, write, write?, hfails]
        rfl
      obtain ⟨taken, htaken, hall, hconsole⟩ :=
        ih { console with writes := console.writes ++ [Text.line line] }
      refine ⟨line :: taken, List.cons_prefix_cons.mpr ⟨rfl, htaken⟩, fun hlimit => ?_, ?_⟩
      · rw [hall hlimit]
      · rw [List.foldl_cons, hline, hconsole]
        simp

end Console

/-- The entries of a notice: its record, then its report if it is a fault. -/
def Notice.entries (notice : Notice) : List Entry :=
  .logged notice.record ::
    match notice with
    | .executed _ _ => []
    | .failed fault => [.line fault.toFault.message]

/-- The faults that a notice reports. -/
def Notice.reports : Notice → List Fault
  | .executed _ _ => []
  | .failed fault => [fault.toFault]

/-- What an execution reports is what its notices report. -/
theorem Execution.reports_eq {α : Type} (execution : Execution α) :
    execution.reports = execution.notices.flatMap Notice.reports := by
  rw [reports]
  induction execution.notices with
  | nil => rfl
  | cons notice notices ih =>
    cases notice with
    | executed index environment => exact ih
    | failed fault => exact congrArg (fault.toFault :: ·) ih

namespace Workbench

/-- Report faults of the source or of reading. -/
def report (bench : Workbench) (faults : List Fault) : Workbench :=
  { bench with
    reporter := bench.reporter.errors faults
    entries := bench.entries ++ [.plain (reportLines faults)] }

/-- A reporter to which faults were reported adds their lines to the stream. -/
theorem adopt_errors (bench : Workbench) (faults : List Fault) :
    bench.adopt (Sink.errors (some bench.reporter) faults) = bench.report faults := by
  simp [adopt, report, Sink.errors, Reporter.errors_written, reportLines]

/-- A reporter to which a fault of evaluation was reported adds its line to the stream. -/
theorem adopt_runtimeError (bench : Workbench) (fault : Fault) :
    bench.adopt (some (bench.reporter.runtimeError (some fault))) =
      { bench with
        reporter := bench.reporter.runtimeErrors [fault]
        entries := bench.entries ++ [.line fault.message] } := by
  simp [adopt, Reporter.runtimeErrors, Reporter.runtimeError, Reporter.mention, Reporter.lineOf,
    Entry.line]

/-- Scanning reports the faults of the source and shows its tokens. -/
theorem scan_eq (bench : Workbench) (source : Text) :
    bench.scan source =
      (Scan.ofSource source,
        ((bench.report (Scan.ofSource source).reports).step "scanned"
          [("tokens", some (Text.ofNat (Scan.ofSource source).tokens.length))]
          (Scan.ofSource source).fault?).showTokens (Scan.ofSource source).tokens) := by
  rw [scan, Scan.ofSourceTo_eq, ← adopt_errors]

/-- Reading a program reports its faults. -/
theorem readProgram_eq (bench : Workbench) (parser : Parser) :
    bench.readProgram parser =
      (parser.program.1,
        (bench.report parser.program.1.reports).step "parsed"
          [("statements", some (Text.ofNat parser.program.1.statements.length))]
          parser.program.1.fault?) := by
  rw [readProgram, Parser.programTo_eq, ← adopt_errors]

/-- Reading an expression that is there reports nothing. -/
theorem readExpression_of_ok (bench : Workbench) {parser : Parser} {value : Expr}
    (h : parser.expression.1 = .ok value) :
    bench.readExpression parser =
      (.ok value,
        (bench.report []).step "parsed" [("expression", some (Text.ofBool true))] none) := by
  rw [readExpression, Parser.expressionTo_eq, ← adopt_errors]
  simp only [h]
  rfl

/-- Reading an expression that is not there reports its fault. -/
theorem readExpression_of_error (bench : Workbench) {parser : Parser} {fault : SyntaxFault}
    (h : parser.expression.1 = .error fault) :
    bench.readExpression parser =
      (.error fault,
        (bench.report [.parse fault]).step "parsed" [("expression", some (Text.ofBool false))]
          (some (.parse fault))) := by
  rw [readExpression, Parser.expressionTo_eq, ← adopt_errors]
  simp only [h]
  rfl

/-- Taking notice adds the entries of the notice and reports it if it is a fault. -/
theorem note_eq (bench : Workbench) (notice : Notice) :
    bench.note notice =
      { bench with
        reporter := bench.reporter.runtimeErrors notice.reports
        entries := bench.entries ++ notice.entries } := by
  cases notice with
  | executed index environment => rfl
  | failed fault =>
    rw [note, adopt_runtimeError]
    simp [log, Notice.entries, Notice.reports]

/-- Taking notices one after the other adds the entries of all and reports the faults among
them. -/
theorem foldl_note (bench : Workbench) (notices : List Notice) :
    notices.foldl note bench =
      { bench with
        reporter := bench.reporter.runtimeErrors (notices.flatMap Notice.reports)
        entries := bench.entries ++ notices.flatMap Notice.entries } := by
  induction notices generalizing bench with
  | nil => simp [Reporter.runtimeErrors]
  | cons notice notices ih =>
    rw [List.foldl_cons, ih, note_eq]
    simp [Reporter.runtimeErrors]

/-- Settling takes over the console and the interpreter, reports the fault that ended the execution
and adds the entries of its notices. -/
theorem settle_eq {α : Type} (bench : Workbench) (message : String)
    (run : Execution α × Interpreter) :
    bench.settle message run =
      { bench with
        console := run.1.console
        reporter := bench.reporter.runtimeErrors run.1.reports
        interpreter := run.2
        entries := bench.entries ++ run.1.notices.flatMap Notice.entries }.step message []
          run.1.fault? := by
  simp only [settle]
  rw [foldl_note, Execution.reports_eq]

end Workbench

end Lox
