import Lox.Proofs.Command.ExitCode

/-!
# What a unit does not see

A workbench that has been used differs from a new one by the writes on its console, by the flags of
its reporter, by the variables of its interpreter and by the entries of its stream. A unit sees none
of them: run on the used workbench and on the new one, it ends in the same way and adds the same
writes and the same entries. The two workbenches are followed side by side, one step after another.
-/

namespace Lox

namespace Console

/-- A console that takes every write and never cancels. -/
def working (writes : List Text) : Console := { writes := writes }

/-- A console without limits is a working one. -/
theorem eq_working {console : Console} (hfails : console.failAfter = none)
    (hcancels : console.cancelAfter = none) : console = working console.writes := by
  have hpatience := patience_eq hcancels
  cases console
  cases hfails
  cases hcancels
  cases hpatience
  rfl

/-- What was written after earlier writes. -/
theorem outputFrom_working (writes more : List Text) :
    (working (writes ++ more)).outputFrom writes.length = more.flatten :=
  congrArg List.flatten List.drop_left

/-- Nothing is written yet after all writes. -/
theorem outputFrom_working_self (writes : List Text) :
    (working writes).outputFrom writes.length = [] :=
  congrArg List.flatten List.drop_length

/-- Two working consoles of which one has earlier writes before those of the other. -/
def Follows (past : List Text) (alone used : Console) : Prop :=
  ∃ writes, alone = working writes ∧ used = working (past ++ writes)

namespace Follows

variable {past : List Text} {alone used : Console}

/-- At first a used console has the earlier writes and the other one has none. -/
theorem start (past : List Text) : Follows past (working []) (working past) :=
  ⟨[], rfl, by rw [List.append_nil]⟩

/-- Neither console cancels. -/
theorem cancelled_eq (h : Follows past alone used) :
    alone.cancelled = false ∧ used.cancelled = false := by
  obtain ⟨writes, rfl, rfl⟩ := h
  exact ⟨rfl, rfl⟩

/-- A check changes neither console. -/
theorem checked (h : Follows past alone used) : Follows past alone.checked used.checked := by
  obtain ⟨writes, rfl, rfl⟩ := h
  exact ⟨writes, rfl, rfl⟩

/-- Both consoles take a write. -/
theorem write? (h : Follows past alone used) (text : Text) :
    ∃ alone' used', alone.write? text = some alone' ∧ used.write? text = some used' ∧
      Follows past alone' used' := by
  obtain ⟨writes, rfl, rfl⟩ := h
  refine ⟨working (writes ++ [text]), working (past ++ writes ++ [text]), rfl, rfl, ?_⟩
  exact ⟨writes ++ [text], rfl, by rw [List.append_assoc]⟩

/-- Both consoles take a line. -/
theorem writeLine (h : Follows past alone used) (text : Text) :
    Follows past (alone.writeLine text) (used.writeLine text) := by
  obtain ⟨alone', used', halone, hused, h'⟩ := h.write? (Text.line text)
  rw [Console.writeLine, Console.writeLine, write, write, halone, hused]
  exact h'

/-- Both consoles take lines. -/
theorem foldl_writeLine (h : Follows past alone used) (lines : List Text) :
    Follows past (lines.foldl Console.writeLine alone) (lines.foldl Console.writeLine used) := by
  induction lines generalizing alone used with
  | nil => exact h
  | cons line lines ih => exact ih (h.writeLine line)

/-- The used console shows after the earlier writes what the other one shows. -/
theorem outputFrom_eq (h : Follows past alone used) :
    used.outputFrom past.length = alone.outputFrom 0 := by
  obtain ⟨writes, rfl, rfl⟩ := h
  exact outputFrom_working past writes

end Follows

end Console

/-- A statement does the same whatever was written before. -/
theorem Stmt.execute_follows {past : List Text} {alone used : Console}
    (h : Console.Follows past alone used) (environment : Environment) (statement : Stmt) :
    (statement.execute environment used).1 = (statement.execute environment alone).1 ∧
      Console.Follows past (statement.execute environment alone).2
        (statement.execute environment used).2 := by
  cases statement with
  | expression tree =>
    cases heval : tree.eval environment <;> simp only [execute, heval] <;> exact ⟨trivial, h⟩
  | print tree =>
    cases heval : tree.eval environment with
    | error fault =>
      simp only [execute, heval]
      exact ⟨trivial, h⟩
    | ok value =>
      obtain ⟨alone', used', halone, hused, h'⟩ := h.write? (Text.line (Value.textOf value))
      simp only [execute, heval, halone, hused]
      exact ⟨trivial, h'⟩
  | declaration name initializer =>
    cases initializer with
    | none => exact ⟨rfl, h⟩
    | some tree =>
      cases heval : tree.eval environment <;> simp only [execute, heval] <;> exact ⟨trivial, h⟩

namespace Execution

/-- Two executions that end alike, the second on a console with earlier writes. -/
structure Follows {α : Type} (past : List Text) (alone used : Execution α) : Prop where
  /-- They have the same outcome. -/
  outcome : used.outcome = alone.outcome
  /-- They make the same known. -/
  notices : used.notices = alone.notices
  /-- They write the same. -/
  console : Console.Follows past alone.console used.console

variable {past : List Text} {alone used : Console}

/-- Statements do the same whatever was written before. -/
theorem statementsFrom_follows (h : Console.Follows past alone used) (index : Nat)
    (environment : Environment) (text : Text) (statements : List Stmt) :
    Follows past (statementsFrom index environment alone text statements)
      (statementsFrom index environment used text statements) := by
  -- A statement may write, so the others start on other consoles, which follow each other as well.
  induction statements generalizing index environment text alone used with
  | nil => exact ⟨rfl, rfl, h⟩
  | cons statement statements ih =>
    obtain ⟨halone, hused⟩ := h.cancelled_eq
    obtain ⟨hresult, hconsole⟩ := statement.execute_follows h.checked environment
    simp only [statementsFrom, halone, hused, Bool.false_eq_true, if_false]
    generalize statement.execute environment alone.checked = first at hresult hconsole ⊢
    generalize statement.execute environment used.checked = second at hresult hconsole ⊢
    obtain ⟨result, alone⟩ := first
    obtain ⟨other, used⟩ := second
    dsimp only at hresult hconsole
    subst hresult
    cases other with
    | error fault => exact ⟨rfl, rfl, hconsole⟩
    | ok effect =>
      have later := ih hconsole (index + 1) effect.environment (statement.resultText effect.value)
      exact ⟨later.outcome, congrArg (.executed index effect.environment :: ·) later.notices,
        later.console⟩

/-- An expression does the same whatever was written before. -/
theorem expression_follows (h : Console.Follows past alone used) (tree : Expr) :
    Follows past (expression alone tree) (expression used tree) := by
  obtain ⟨halone, hused⟩ := h.cancelled_eq
  simp only [expression, halone, hused, Bool.false_eq_true, if_false]
  cases tree.eval .empty <;> exact ⟨rfl, rfl, h.checked⟩

end Execution

namespace Workbench

/-- A workbench as it is without what came before, and as it is with it: the earlier writes and the
earlier entries stand in front. -/
structure Follows (past alone used : Workbench) : Prop where
  /-- The settings have not changed. -/
  settings : used.settings = past.settings
  /-- The settings are the same without what came before. -/
  aloneSettings : alone.settings = past.settings
  /-- The earlier writes stand in front. -/
  console : Console.Follows past.console.writes alone.console used.console
  /-- The earlier entries stand in front. -/
  entries : used.entries = past.entries ++ alone.entries

/-- A workbench follows another one and remembers the same of the faults that were reported. -/
structure Matches (past alone used : Workbench) : Prop extends Follows past alone used where
  /-- Both have seen a fault of the source or of reading, or neither has. -/
  hadError : used.reporter.hadError = alone.reporter.hadError
  /-- Both have seen a fault of evaluation, or neither has. -/
  hadRuntimeError : used.reporter.hadRuntimeError = alone.reporter.hadRuntimeError

namespace Follows

variable {past alone used : Workbench}

/-- A workbench with a working console follows a new one. -/
theorem start {bench : Workbench} {writes : List Text}
    (hconsole : bench.console = .working writes) :
    Follows bench { settings := bench.settings } bench := by
  refine ⟨rfl, rfl, ?_, (List.append_nil _).symm⟩
  rw [hconsole]
  exact Console.Follows.start writes

/-- Both take a record. -/
theorem log (h : Follows past alone used) (record : Record) :
    Follows past (alone.log record) (used.log record) := by
  refine ⟨h.settings, h.aloneSettings, h.console, ?_⟩
  rw [Workbench.log, Workbench.log, h.entries, List.append_assoc]

/-- Both take a line that is no record. -/
theorem say (h : Follows past alone used) (text : Text) :
    Follows past (alone.say text) (used.say text) := by
  refine ⟨h.settings, h.aloneSettings, h.console, ?_⟩
  rw [Workbench.say, Workbench.say, h.entries, List.append_assoc]

/-- Both show lines. -/
theorem showLines (h : Follows past alone used) (lines : List Text) :
    Follows past (alone.showLines lines) (used.showLines lines) :=
  ⟨h.settings, h.aloneSettings, h.console.foldl_writeLine lines, h.entries⟩

/-- Both take reports. -/
theorem report (h : Follows past alone used) (faults : List Fault) :
    Follows past (alone.report faults) (used.report faults) := by
  refine ⟨h.settings, h.aloneSettings, h.console, ?_⟩
  rw [Workbench.report, Workbench.report, h.entries, List.append_assoc]

/-- Once both have forgotten the faults, they remember the same of them. -/
theorem reset (h : Follows past alone used) : Matches past alone.reset used.reset :=
  ⟨⟨h.settings, h.aloneSettings, h.console, h.entries⟩, rfl, rfl⟩

end Follows

/-- Two results that are the same, on workbenches that match. -/
structure Agree {α : Type} (past : Workbench) (alone used : α × Workbench) : Prop where
  /-- The results are the same. -/
  result : used.1 = alone.1
  /-- The workbenches match. -/
  bench : Matches past alone.2 used.2

namespace Matches

variable {past alone used : Workbench}

/-- Both take a record. -/
theorem log (h : Matches past alone used) (record : Record) :
    Matches past (alone.log record) (used.log record) :=
  ⟨h.toFollows.log record, h.hadError, h.hadRuntimeError⟩

/-- Both take the record of a step. -/
theorem step (h : Matches past alone used) (message : String)
    (fields : List (String × Option Text)) (fault : Option Fault) :
    Matches past (alone.step message fields fault) (used.step message fields fault) :=
  h.log _

/-- Both show lines. -/
theorem showLines (h : Matches past alone used) (lines : List Text) :
    Matches past (alone.showLines lines) (used.showLines lines) :=
  ⟨h.toFollows.showLines lines, h.hadError, h.hadRuntimeError⟩

/-- Both take reports and remember that there were any. -/
theorem report (h : Matches past alone used) (faults : List Fault) :
    Matches past (alone.report faults) (used.report faults) := by
  refine ⟨h.toFollows.report faults, ?_, ?_⟩
  · simp only [Workbench.report, Reporter.errors_hadError, h.hadError]
  · simp only [Workbench.report, Reporter.errors_hadRuntimeError, h.hadRuntimeError]

/-- Both scan a source. -/
theorem scan (h : Matches past alone used) (source : Text) :
    Matches past (alone.scan source).2 (used.scan source).2 := by
  rw [scan_eq, scan_eq, showTokens_eq, showTokens_eq]
  have hstep := (h.report (Scan.ofSource source).reports).step "scanned"
    [("tokens", some (Text.ofNat (Scan.ofSource source).tokens.length))]
    (Scan.ofSource source).fault?
  rw [hstep.settings, hstep.aloneSettings]
  exact hstep.showLines _

/-- Both take over an execution that went alike on them. -/
theorem settle {α : Type} (h : Matches past alone used) (message : String)
    {run other : Execution α × Interpreter}
    (hrun : Execution.Follows past.console.writes run.1 other.1) :
    Matches past (alone.settle message run) (used.settle message other) := by
  have hreports : other.1.reports = run.1.reports := by
    rw [Execution.reports, Execution.reports, hrun.notices]
  have hfault : other.1.fault? = run.1.fault? := by
    rw [Execution.fault?, Execution.fault?, hrun.outcome]
  rw [settle_eq, settle_eq, hrun.notices, hreports, hfault, Reporter.runtimeErrors_eq,
    Reporter.runtimeErrors_eq]
  refine step ?_ message [] run.1.fault?
  refine ⟨⟨h.settings, h.aloneSettings, hrun.console, ?_⟩, h.hadError, ?_⟩
  · dsimp only
    rw [h.entries, List.append_assoc]
  · dsimp only
    rw [h.hadRuntimeError]

/-- Both end a unit alike with an execution that went alike on them. -/
theorem ofExecution {α : Type} (h : Matches past alone used) (text : α → Text) (message : String)
    {run other : Execution α × Interpreter}
    (hrun : Execution.Follows past.console.writes run.1 other.1) :
    Agree past (UnitOutcome.ofExecution text run.1, alone.settle message run)
      (UnitOutcome.ofExecution text other.1, used.settle message other) := by
  refine ⟨?_, h.settle message hrun⟩
  simp only [UnitOutcome.ofExecution, Execution.fault?, hrun.outcome]

/-- Both execute statements. -/
theorem interpret (h : Matches past alone used) (statements : List Stmt) :
    Agree past (alone.interpret statements) (used.interpret statements) := by
  rw [Workbench.interpret, Workbench.interpret, showTrees_statements, showTrees_statements,
    h.settings, h.aloneSettings]
  have hshown := h.showLines (past.settings.treeLines (.program statements))
  refine hshown.ofExecution id "interpreted" ?_
  rw [Interpreter.interpret_fst, Interpreter.interpret_fst]
  exact Execution.statementsFrom_follows hshown.console 0 .empty [] statements

/-- Both evaluate an expression. -/
theorem evaluate (h : Matches past alone used) (tree : Expr) :
    Agree past (alone.evaluate tree) (used.evaluate tree) := by
  rw [Workbench.evaluate, Workbench.evaluate, showTrees_expression, showTrees_expression,
    h.settings, h.aloneSettings]
  have hshown := h.showLines (past.settings.treeLines (.expression tree))
  refine hshown.ofExecution Value.textOf "evaluated" ?_
  rw [Interpreter.evaluate_fst, Interpreter.evaluate_fst]
  exact Execution.expression_follows hshown.console tree

/-- Both read statements. -/
theorem readProgram (h : Matches past alone used) (parser : Parser) :
    Matches past (alone.readProgram parser).2 (used.readProgram parser).2 := by
  rw [readProgram_eq, readProgram_eq]
  exact (h.report _).step _ _ _

/-- Both read and execute statements. -/
theorem runStatements (h : Matches past alone used) (kind : UnitKind) (scan : Scan) :
    Agree past (alone.runStatements kind scan) (used.runStatements kind scan) := by
  cases hparser : Parser.ofTokens kind.options scan.tokens with
  | error fault =>
    unfold UnitKind.options at hparser
    rw [Workbench.runStatements, Workbench.runStatements, hparser]
    exact ⟨rfl, h⟩
  | ok parser =>
    cases hjoin : Fault.join [scan.fault?, parser.program.1.fault?] with
    | some fault =>
      rw [runStatements_of_fault _ hparser hjoin, runStatements_of_fault _ hparser hjoin]
      exact ⟨rfl, h.readProgram parser⟩
    | none =>
      rw [runStatements_of_clean _ hparser hjoin, runStatements_of_clean _ hparser hjoin]
      exact (h.readProgram parser).interpret parser.program.1.statements

/-- Both read and evaluate an expression. -/
theorem runExpression (h : Matches past alone used) (scan : Scan) :
    Agree past (alone.runExpression scan) (used.runExpression scan) := by
  cases hscan : scan.fault? with
  | some fault =>
    rw [Workbench.runExpression, Workbench.runExpression, hscan]
    exact ⟨rfl, h⟩
  | none =>
    cases hparser : Parser.ofTokens {} scan.tokens with
    | error fault =>
      rw [Workbench.runExpression, Workbench.runExpression, hscan]
      simp only [hparser]
      exact ⟨rfl, h⟩
    | ok parser =>
      cases hread : parser.expression.1 with
      | error fault =>
        rw [runExpression_of_error _ hscan hparser hread,
          runExpression_of_error _ hscan hparser hread, readExpression_of_error _ hread,
          readExpression_of_error _ hread]
        exact ⟨rfl, (h.report _).step _ _ _⟩
      | ok tree =>
        rw [runExpression_of_ok _ hscan hparser hread, runExpression_of_ok _ hscan hparser hread,
          readExpression_of_ok _ hread, readExpression_of_ok _ hread]
        exact ((h.report []).step _ _ _).evaluate tree

/-- Both take the record of a failure. -/
theorem logFailure (h : Matches past alone used) (fault : Option Fault) :
    Matches past (alone.logFailure fault) (used.logFailure fault) := by
  unfold Workbench.logFailure
  split
  · exact h
  · split <;> exact h.log _

/-- Both write a result. -/
theorem echo (h : Matches past alone used) (text : Text) :
    Matches past (alone.echo text) (used.echo text) := by
  unfold Workbench.echo
  split
  · exact h
  · exact h.showLines [text]

end Matches

/-- A line is run, recorded if it failed, and its result is written. -/
theorem runLine_eq (bench : Workbench) (line : Text) :
    bench.runLine line =
      ((bench.run .line line).2.logFailure (bench.run .line line).1.fault).echo
        (bench.run .line line).1.text :=
  rfl

namespace Follows

variable {past alone used : Workbench}

/-- A unit forgets the faults of earlier ones, so it ends alike on both. -/
theorem run (h : Follows past alone used) (kind : UnitKind) (source : Text) :
    Agree past (alone.run kind source) (used.run kind source) := by
  -- The flags may differ up to here; the reset makes them equal, and from then on they stay equal.
  have hscan := h.reset.scan source
  by_cases hkind : kind = .expression
  · rw [hkind, run_expression, run_expression]
    exact hscan.runExpression _
  · rw [run_statements _ hkind, run_statements _ hkind]
    exact hscan.runStatements kind _

/-- A unit that is run alone ends with the same code on both. -/
theorem runSource (h : Follows past alone used) (kind : UnitKind) (source : Text) :
    (used.runSource kind source).1 = (alone.runSource kind source).1 ∧
      Follows past (alone.runSource kind source).2 (used.runSource kind source).2 := by
  obtain ⟨hresult, hbench⟩ := h.run kind source
  rw [runSource_eq, runSource_eq, hresult]
  have hfinish : Matches past ((alone.run kind source).2.finish kind (alone.run kind source).1)
      ((used.run kind source).2.finish kind (alone.run kind source).1) := by
    unfold finish
    split
    · exact (hbench.logFailure _).echo _
    · exact hbench.logFailure _
  unfold conclude
  rw [hfinish.hadError, hfinish.hadRuntimeError]
  split
  · exact ⟨rfl, hfinish.toFollows⟩
  · split
    · exact ⟨rfl, hfinish.toFollows⟩
    · split
      · exact ⟨rfl, hfinish.toFollows.say _⟩
      · exact ⟨rfl, hfinish.toFollows⟩

/-- A file is run alike on both. -/
theorem runFile (h : Follows past alone used) (files : List (Text × List UInt8)) (path : Text) :
    (used.runFile files path).1 = (alone.runFile files path).1 ∧
      Follows past (alone.runFile files path).2 (used.runFile files path).2 := by
  unfold Workbench.runFile
  split
  · exact ⟨rfl, h.say _⟩
  · exact h.runSource .script _

/-- A line is run alike on both. -/
theorem runLine (h : Follows past alone used) (line : Text) :
    Follows past (alone.runLine line) (used.runLine line) := by
  obtain ⟨hresult, hbench⟩ := h.run .line line
  rw [runLine_eq, runLine_eq, hresult]
  exact ((hbench.logFailure _).echo _).toFollows

/-- The end of input is the same on both. -/
theorem endInput (h : Follows past alone used) (inputEnd : InputEnd) :
    (used.endInput inputEnd).1 = (alone.endInput inputEnd).1 ∧
      Follows past (alone.endInput inputEnd).2 (used.endInput inputEnd).2 := by
  cases inputEnd with
  | failure message => exact ⟨rfl, h.say message⟩
  | endOfInput => exact ⟨rfl, h⟩
  | interrupt => exact ⟨rfl, h⟩

/-- Lines are run alike on both. -/
theorem runLines (h : Follows past alone used) (inputEnd : InputEnd)
    (lines : List (List UInt8)) :
    (used.runLines inputEnd lines).1 = (alone.runLines inputEnd lines).1 ∧
      Follows past (alone.runLines inputEnd lines).2 (used.runLines inputEnd lines).2 := by
  induction lines generalizing alone used with
  | nil => exact h.endInput inputEnd
  | cons line lines ih =>
    unfold Workbench.runLines
    split
    · exact ⟨rfl, h.say _⟩
    · split
      · exact ⟨rfl, h⟩
      · exact ih (h.runLine (Lines.text line))

end Follows

end Workbench

end Lox
