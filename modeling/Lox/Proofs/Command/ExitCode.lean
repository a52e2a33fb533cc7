import Lox.Proofs.Command.Workbench
import Lox.Proofs.Pipeline

/-!
# What the exit code tells

A unit that is run alone ends in one of three ways: its source or its tokens have faults, or it is
evaluated and evaluation ends early, or evaluation completes. The exit code tells which, although it
is found from the flags of a reporter that all stages share. A unit with faults is not evaluated, so
nothing but its tokens is shown. Where records are left out, success is the same as silence.

Evaluation ends early also where it is cancelled, which can happen before every statement, whether
the statements before it wrote something or not.
-/

namespace Lox

/-- A level at which no record of the command is written. -/
def LogLevel.Quiet (level : LogLevel) : Prop := level = .warn ∨ level = .error

/-- Records of little importance are left out at a quiet level. -/
theorem Entry.text_logged {level : LogLevel} (hquiet : level.Quiet) (time : Text)
    {record : Record} (hrecord : record.level = .debug ∨ record.level = .info) :
    Entry.text level time (.logged record) = [] := by
  have hrank : ¬ level.rank ≤ record.level.rank := by
    rcases hquiet with rfl | rfl <;> rcases hrecord with h | h <;> rw [h] <;> decide
  rw [Entry.text, if_neg hrank]

/-- Nothing is written only if there is nothing to report. -/
theorem reportLines_eq_nil_iff (faults : List Fault) : reportLines faults = [] ↔ faults = [] := by
  cases faults with
  | nil => exact iff_of_true rfl rfl
  | cons fault faults => simp [reportLines, Text.line]

/-- Faults that make no fault together are none. -/
theorem Fault.eq_nil_of_join {faults : List Fault} (h : Fault.join (faults.map some) = none) :
    faults = [] := by
  have hsome := Fault.isSome_join faults
  rw [h] at hsome
  simpa using hsome

/-- Notices are recorded as steps. -/
theorem Notice.record_level (notice : Notice) : notice.record.level = .debug := by
  cases notice <;> rfl

/-- At a quiet level a notice shows its report. -/
theorem Notice.flatMap_text_entries {level : LogLevel} (hquiet : level.Quiet) (time : Text)
    (notice : Notice) :
    notice.entries.flatMap (Entry.text level time) = reportLines notice.reports := by
  have hrecord := Entry.text_logged hquiet time (.inl notice.record_level)
  cases notice with
  | executed index environment => simp [entries, reports, reportLines, hrecord]
  | failed fault =>
    have hline : Entry.text level time (.line fault.toFault.message) =
        Text.line fault.toFault.message := rfl
    simp [entries, reports, reportLines, hrecord, hline]

/-- Why an execution ended early, before it is put as a fault. -/
def Execution.runFault? {α : Type} (execution : Execution α) : Option RunFault :=
  match execution.outcome with
  | .error fault => some fault
  | .ok _ => none

/-- The fault of an execution is the reason why it ended early. -/
theorem Execution.fault?_eq {α : Type} (execution : Execution α) :
    execution.fault? = execution.runFault?.map RunFault.toFault := by
  unfold fault? runFault?
  cases execution.outcome <;> rfl

/-- Why evaluating a tree on a console ends early, if it does. -/
def Tree.fault? (console : Console) : Tree → Option RunFault
  | .program statements => (Execution.program console statements).runFault?
  | .expression value => (Execution.expression console value).runFault?

/-- How often evaluating a tree checks that it is not cancelled, if it completes. -/
def Tree.checks : Tree → Nat
  | .program statements => statements.length
  | .expression _ => 1

/-- The console cancels a program at one of its next checks, whatever was written. -/
structure Console.CancelsWithin (console : Console) (count : Nat) : Prop where
  /-- No writes have to be taken before. -/
  cancelAfter : console.cancelAfter = some 0
  /-- The checks that are passed in any case are fewer. -/
  patience : console.patience < count

namespace Console.CancelsWithin

variable {console : Console} {count : Nat}

/-- Writing does not put off a cancellation. -/
theorem write? (h : console.CancelsWithin count) {text : Text} {after : Console}
    (hwrite : console.write? text = some after) : after.CancelsWithin count := by
  unfold Console.write? at hwrite
  split at hwrite
  · cases hwrite
  · cases hwrite
    exact ⟨h.cancelAfter, h.patience⟩

/-- Writing lines does not put off a cancellation. -/
theorem foldl_writeLine (h : console.CancelsWithin count) (lines : List Text) :
    (lines.foldl Console.writeLine console).CancelsWithin count := by
  obtain ⟨taken, -, -, hconsole⟩ := console.foldl_writeLine lines
  rw [hconsole]
  exact ⟨h.cancelAfter, h.patience⟩

/-- Executing a statement does not put off a cancellation. -/
theorem execute (h : console.CancelsWithin count) (environment : Environment)
    (statement : Stmt) : (statement.execute environment console).2.CancelsWithin count := by
  have hexecutes := statement.executes_execute environment console
  generalize statement.execute environment console = result at hexecutes
  cases hexecutes with
  | failed | evaluated | unwritten | declared | defined => exact h
  | printed heval hwrite => exact h.write? hwrite

/-- A check finds the program cancelled or is one of those that are passed. -/
theorem check (h : console.CancelsWithin (count + 1)) :
    console.cancelled = true ∨ console.checked.CancelsWithin count := by
  cases hpatience : console.patience with
  | zero =>
    left
    rw [cancelled, hpatience, h.cancelAfter]
    exact decide_eq_true (Nat.zero_le _)
  | succ patience =>
    right
    have hlt := h.patience
    refine ⟨h.cancelAfter, ?_⟩
    change console.patience - 1 < count
    omega

/-- Statements do not complete where they are cancelled before one of them. -/
theorem statementsFrom {statements : List Stmt} (h : console.CancelsWithin statements.length)
    (index : Nat) (environment : Environment) (text : Text) :
    (Execution.statementsFrom index environment console text statements).runFault?.isSome := by
  induction statements generalizing index environment console text with
  | nil => exact absurd h.patience (Nat.not_lt_zero _)
  | cons statement rest ih =>
    unfold Execution.statementsFrom
    rcases h.check with hcancelled | hpassed
    · rw [if_pos hcancelled]
      rfl
    · have hlater := hpassed.execute environment statement
      split
      · rfl
      · rcases hexecute : statement.execute environment console.checked with
          ⟨fault | effect, after⟩
        · rfl
        · rw [hexecute] at hlater
          exact ih hlater (index + 1) effect.environment _

/-- Evaluating a tree does not complete where it is cancelled at one of its checks. -/
theorem fault? {tree : Tree} (h : console.CancelsWithin tree.checks) :
    (tree.fault? console).isSome := by
  cases tree with
  | program statements => exact h.statementsFrom 0 .empty []
  | expression value =>
    have hcancelled : console.cancelled = true :=
      h.check.resolve_right fun hpassed => absurd hpassed.patience (Nat.not_lt_zero _)
    rw [Tree.fault?, Execution.expression, if_pos hcancelled]
    rfl

end Console.CancelsWithin

namespace UnitKind

/-- How the tokens of a unit are read. -/
def options (kind : UnitKind) : ReadingOptions := { implicitSemicolon := kind = .line }

/-- Scanning a source or reading its tokens returns a fault. -/
inductive Rejects (source : Text) : UnitKind → Prop where
  /-- The source has faults. -/
  | scan {kind : UnitKind} (hscan : (Scan.ofSource source).fault?.isSome) : Rejects source kind
  /-- The tokens cannot be read as statements. -/
  | program {kind : UnitKind} {parser : Parser} (hkind : kind ≠ .expression)
      (hparser : Parser.ofTokens kind.options (Scan.ofSource source).tokens = .ok parser)
      (hread : parser.program.1.fault?.isSome) : Rejects source kind
  /-- The tokens cannot be read as an expression. -/
  | expression {parser : Parser} {fault : SyntaxFault}
      (hparser : Parser.ofTokens {} (Scan.ofSource source).tokens = .ok parser)
      (hread : parser.expression.1 = .error fault) : Rejects source .expression

/-- A source is scanned and its tokens are read as a tree without any fault. -/
inductive Reads (source : Text) : UnitKind → Tree → Prop where
  /-- The tokens are read as statements. -/
  | program {kind : UnitKind} {parser : Parser} (hkind : kind ≠ .expression)
      (hscan : (Scan.ofSource source).fault? = none)
      (hparser : Parser.ofTokens kind.options (Scan.ofSource source).tokens = .ok parser)
      (hread : parser.program.1.fault? = none) :
      Reads source kind (.program parser.program.1.statements)
  /-- The tokens are read as an expression. -/
  | expression {parser : Parser} {value : Expr} (hscan : (Scan.ofSource source).fault? = none)
      (hparser : Parser.ofTokens {} (Scan.ofSource source).tokens = .ok parser)
      (hread : parser.expression.1 = .ok value) : Reads source .expression (.expression value)

/-- Every source is rejected or read. -/
theorem rejects_or_reads (kind : UnitKind) (source : Text) :
    Rejects source kind ∨ ∃ tree, Reads source kind tree := by
  cases hscan : (Scan.ofSource source).fault? with
  | some fault => exact .inl (.scan (by rw [hscan]; rfl))
  | none =>
    by_cases hkind : kind = .expression
    · subst hkind
      obtain ⟨parser, hparser, -⟩ := Scan.ofSource_closed {} source
      cases hread : parser.expression.1 with
      | error fault => exact .inl (.expression hparser hread)
      | ok value => exact .inr ⟨_, .expression hscan hparser hread⟩
    · obtain ⟨parser, hparser, -⟩ := Scan.ofSource_closed kind.options source
      cases hread : parser.program.1.fault? with
      | some fault => exact .inl (.program hkind hparser (by rw [hread]; rfl))
      | none => exact .inr ⟨_, .program hkind hscan hparser hread⟩

end UnitKind

namespace Settings

/-- The lines that show the tokens of a unit. -/
def tokenLines (settings : Settings) (tokens : List Token) : List Text :=
  if settings.printTokens then tokens.map Token.dump else []

/-- The lines that show the tree of a unit. -/
def treeLines (settings : Settings) (tree : Tree) : List Text :=
  match settings.style, tree with
  | none, _ => []
  | some style, .program statements => statements.map style.statement
  | some style, .expression value => [style.expression value]

/-- The console that a tree is evaluated on: tokens and trees are shown before. -/
def consoleFor (settings : Settings) (source : Text) (tree : Tree) (console : Console) :
    Console :=
  (settings.tokenLines (Scan.ofSource source).tokens ++ settings.treeLines tree).foldl
    Console.writeLine console

end Settings

namespace Workbench

/-- What the stream shows at a level. -/
def shown (level : LogLevel) (time : Text) (bench : Workbench) : Text :=
  bench.entries.flatMap (Entry.text level time)

section Shown

variable {level : LogLevel} (hquiet : level.Quiet) (time : Text) (bench : Workbench)

include hquiet

/-- A record is not shown. -/
theorem shown_log {record : Record} (h : record.level = .debug ∨ record.level = .info) :
    (bench.log record).shown level time = bench.shown level time := by
  simp [shown, log, Entry.text_logged hquiet time h]

/-- The record of a step is not shown. -/
theorem shown_step (message : String) (fields : List (String × Option Text))
    (fault : Option Fault) :
    (bench.step message fields fault).shown level time = bench.shown level time :=
  shown_log hquiet time bench (.inl rfl)

/-- The record of a failure is not shown. -/
theorem shown_logFailure (fault : Option Fault) :
    (bench.logFailure fault).shown level time = bench.shown level time := by
  unfold logFailure
  split
  · rfl
  · split <;> exact shown_log hquiet time bench (.inr rfl)

/-- Of an execution its report is shown. -/
theorem shown_settle {α : Type} (message : String) (run : Execution α × Interpreter) :
    (bench.settle message run).shown level time =
      bench.shown level time ++ reportLines run.1.reports := by
  have hnotices : (run.1.notices.flatMap Notice.entries).flatMap (Entry.text level time) =
      reportLines run.1.reports := by
    rw [Execution.reports_eq, reportLines, List.flatMap_assoc, List.flatMap_assoc]
    exact congrArg (run.1.notices.flatMap ·)
      (funext fun notice => notice.flatMap_text_entries hquiet time)
  rw [settle_eq, shown_step hquiet, shown, List.flatMap_append, hnotices]
  rfl

end Shown

/-- Reported faults are shown. -/
theorem shown_report (level : LogLevel) (time : Text) (bench : Workbench) (faults : List Fault) :
    (bench.report faults).shown level time = bench.shown level time ++ reportLines faults := by
  simp [shown, report, Entry.text]

/-- A line that is no record is shown. -/
theorem shown_say (level : LogLevel) (time : Text) (bench : Workbench) (text : Text) :
    (bench.say text).shown level time = bench.shown level time ++ Text.line text := by
  simp [shown, say, Entry.line, Entry.text]

/-- Showing tokens writes them to the console and changes nothing else. -/
theorem showTokens_eq (bench : Workbench) (tokens : List Token) :
    bench.showTokens tokens = bench.showLines (bench.settings.tokenLines tokens) := by
  unfold showTokens Settings.tokenLines
  split <;> rfl

/-- Showing statements writes them to the console and changes nothing else. -/
theorem showTrees_statements (bench : Workbench) (statements : List Stmt) :
    bench.showTrees TreeStyle.statement statements =
      bench.showLines (bench.settings.treeLines (.program statements)) := by
  unfold showTrees Settings.treeLines
  cases bench.settings.style <;> rfl

/-- Showing an expression writes it to the console and changes nothing else. -/
theorem showTrees_expression (bench : Workbench) (value : Expr) :
    bench.showTrees TreeStyle.expression [value] =
      bench.showLines (bench.settings.treeLines (.expression value)) := by
  unfold showTrees Settings.treeLines
  cases bench.settings.style <;> rfl

/-- The faults that were reported on a workbench since it had been another one: those of the source
and of reading, and those of evaluation. -/
structure Reported (bench : Workbench) (faults reports : List Fault) (after : Workbench) :
    Prop where
  /-- The reporter remembers whether there were faults of the source or of reading. -/
  hadError : after.reporter.hadError = !faults.isEmpty
  /-- The reporter remembers whether there were faults of evaluation. -/
  hadRuntimeError : after.reporter.hadRuntimeError = !reports.isEmpty
  /-- At a quiet level the stream shows the faults and nothing else. -/
  shown : ∀ level time, level.Quiet →
    after.shown level time = bench.shown level time ++ reportLines (faults ++ reports)

namespace Reported

variable {bench mid : Workbench} {faults reports : List Fault}

/-- Scanning forgets earlier faults and reports those of the source. -/
theorem scan (bench : Workbench) (source : Text) :
    bench.Reported (Scan.ofSource source).reports [] (bench.reset.scan source).2 := by
  rw [scan_eq, showTokens_eq]
  refine ⟨?_, ?_, fun level time hquiet => ?_⟩
  · exact (Reporter.errors_hadError _ _).trans (Bool.false_or _)
  · exact Reporter.errors_hadRuntimeError _ _
  · rw [List.append_nil]
    exact (shown_step hquiet time _ _ _ _).trans (shown_report level time bench.reset _)

/-- Reading adds the faults that it reports. -/
theorem report (h : bench.Reported faults [] mid) (more : List Fault) (message : String)
    (fields : List (String × Option Text)) (fault : Option Fault) :
    bench.Reported (faults ++ more) [] ((mid.report more).step message fields fault) := by
  refine ⟨?_, ?_, fun level time hquiet => ?_⟩
  · refine (Reporter.errors_hadError mid.reporter more).trans ?_
    rw [h.hadError]
    cases faults <;> rfl
  · exact (Reporter.errors_hadRuntimeError mid.reporter more).trans h.hadRuntimeError
  · rw [shown_step hquiet, shown_report, h.shown level time hquiet]
    simp [reportLines]

/-- Lines on the console are no reports. -/
theorem showLines (h : bench.Reported faults reports mid) (lines : List Text) :
    bench.Reported faults reports (mid.showLines lines) :=
  ⟨h.hadError, h.hadRuntimeError, h.shown⟩

/-- Evaluation adds the fault that it reports. -/
theorem settle {α : Type} (h : bench.Reported faults [] mid) (message : String)
    (run : Execution α × Interpreter) :
    bench.Reported faults run.1.reports (mid.settle message run) := by
  refine ⟨?_, ?_, fun level time hquiet => ?_⟩
  · rw [settle_eq, Reporter.runtimeErrors_eq]
    exact h.hadError
  · rw [settle_eq, Reporter.runtimeErrors_eq]
    exact (congrArg (· || !run.1.reports.isEmpty) h.hadRuntimeError).trans (Bool.false_or _)
  · rw [shown_settle hquiet, h.shown level time hquiet]
    simp [reportLines]

/-- The record of a failure is no report. -/
theorem logFailure (h : bench.Reported faults reports mid) (fault : Option Fault) :
    bench.Reported faults reports (mid.logFailure fault) := by
  have hreporter : (mid.logFailure fault).reporter = mid.reporter := by
    unfold Workbench.logFailure
    split
    · rfl
    · split <;> rfl
  refine ⟨?_, ?_, fun level time hquiet => ?_⟩
  · rw [hreporter, h.hadError]
  · rw [hreporter, h.hadRuntimeError]
  · rw [shown_logFailure hquiet, h.shown level time hquiet]

/-- The echo of a result is no report. -/
theorem echo (h : bench.Reported faults reports mid) (text : Text) :
    bench.Reported faults reports (mid.echo text) := by
  unfold Workbench.echo
  split
  · exact h
  · exact h.showLines [text]

end Reported

/-- Statements are read whether their source has faults or not. -/
theorem run_statements (bench : Workbench) {kind : UnitKind} (hkind : kind ≠ .expression)
    (source : Text) :
    bench.run kind source =
      (bench.reset.scan source).2.runStatements kind (Scan.ofSource source) := by
  cases kind with
  | script => rw [run, scan_eq]
  | line => rw [run, scan_eq]
  | expression => exact absurd rfl hkind

/-- An expression is read if its source has no faults. -/
theorem run_expression (bench : Workbench) (source : Text) :
    bench.run .expression source =
      (bench.reset.scan source).2.runExpression (Scan.ofSource source) := by
  rw [run, scan_eq]

section Reading

variable (bench : Workbench) {kind : UnitKind} {scan : Scan} {parser : Parser}

/-- Statements with a fault in their source or of their own are not executed. -/
theorem runStatements_of_fault {fault : Fault}
    (hparser : Parser.ofTokens kind.options scan.tokens = .ok parser)
    (hfault : Fault.join [scan.fault?, parser.program.1.fault?] = some fault) :
    bench.runStatements kind scan =
      ({ fault := some fault }, (bench.readProgram parser).2) := by
  unfold UnitKind.options at hparser
  rw [runStatements, hparser]
  simp only [readProgram_eq, hfault]

/-- Statements without a fault are executed. -/
theorem runStatements_of_clean (hparser : Parser.ofTokens kind.options scan.tokens = .ok parser)
    (hclean : Fault.join [scan.fault?, parser.program.1.fault?] = none) :
    bench.runStatements kind scan =
      (bench.readProgram parser).2.interpret parser.program.1.statements := by
  unfold UnitKind.options at hparser
  rw [runStatements, hparser]
  simp only [readProgram_eq, hclean]

/-- An expression that cannot be read is not evaluated. -/
theorem runExpression_of_error {fault : SyntaxFault} (hscan : scan.fault? = none)
    (hparser : Parser.ofTokens {} scan.tokens = .ok parser)
    (hread : parser.expression.1 = .error fault) :
    bench.runExpression scan =
      ({ fault := Fault.join [some (.parse fault)] }, (bench.readExpression parser).2) := by
  rw [runExpression, hscan]
  simp only [hparser, readExpression_of_error bench hread]

/-- An expression that can be read is evaluated. -/
theorem runExpression_of_ok {value : Expr} (hscan : scan.fault? = none)
    (hparser : Parser.ofTokens {} scan.tokens = .ok parser)
    (hread : parser.expression.1 = .ok value) :
    bench.runExpression scan = (bench.readExpression parser).2.evaluate value := by
  rw [runExpression, hscan]
  simp only [hparser, readExpression_of_ok bench hread]

end Reading

/-- A fault of the source or of statements is a fault of the unit. -/
theorem isSome_join_pair (first second : Option Fault) :
    (Fault.join [first, second]).isSome = (first.isSome || second.isSome) := by
  cases first <;> cases second <;> rfl

/-- Statements that are rejected have a fault in their source or of their own. -/
theorem exists_join_of_rejects {kind : UnitKind} {source : Text} (h : kind.Rejects source)
    (hkind : kind ≠ .expression) {parser : Parser}
    (hparser : Parser.ofTokens kind.options (Scan.ofSource source).tokens = .ok parser) :
    ∃ fault, Fault.join [(Scan.ofSource source).fault?, parser.program.1.fault?] = some fault := by
  rw [← Option.isSome_iff_exists, isSome_join_pair]
  cases h with
  | scan hscan => rw [hscan, Bool.true_or]
  | program hnot hother hread =>
    cases hparser.symm.trans hother
    rw [hread, Bool.or_true]
  | expression => exact absurd rfl hkind

/-- Scanning writes nothing but tokens to the console. -/
theorem scan_console (bench : Workbench) (source : Text) :
    (bench.reset.scan source).2.console =
      (bench.settings.tokenLines (Scan.ofSource source).tokens).foldl Console.writeLine
        bench.console := by
  rw [scan_eq, showTokens_eq]
  rfl

/-- A unit that is rejected ends with a fault. All its faults are reported, and nothing but its
tokens is written to the console. -/
theorem run_of_rejects (bench : Workbench) {kind : UnitKind} {source : Text}
    (h : kind.Rejects source) :
    ∃ fault faults, faults ≠ [] ∧ (bench.run kind source).1 = { fault := some fault } ∧
      (bench.run kind source).2.console =
        (bench.settings.tokenLines (Scan.ofSource source).tokens).foldl Console.writeLine
          bench.console ∧
      bench.Reported faults [] (bench.run kind source).2 := by
  have hreported := Reported.scan bench source
  by_cases hkind : kind = .expression
  · subst hkind
    rw [run_expression]
    cases hscan : (Scan.ofSource source).fault? with
    | some fault =>
      have hfaults : (Scan.ofSource source).reports ≠ [] := by
        intro hnil
        rw [Scan.fault?, hnil] at hscan
        cases hscan
      refine ⟨fault, (Scan.ofSource source).reports, hfaults, ?_⟩
      rw [runExpression, hscan]
      exact ⟨rfl, scan_console bench source, hreported⟩
    | none =>
      cases h with
      | scan hsome => simp [hscan] at hsome
      | program hnot => exact absurd rfl hnot
      | @expression parser fault hparser hread =>
        refine ⟨.joined [.parse fault], (Scan.ofSource source).reports ++ [.parse fault],
          by simp, ?_⟩
        rw [runExpression_of_error _ hscan hparser hread, readExpression_of_error _ hread]
        exact ⟨rfl, scan_console bench source, hreported.report [.parse fault] _ _ _⟩
  · rw [run_statements bench hkind]
    obtain ⟨parser, hparser, -⟩ := Scan.ofSource_closed kind.options source
    obtain ⟨fault, hfault⟩ := exists_join_of_rejects h hkind hparser
    have hfaults : (Scan.ofSource source).reports ++ parser.program.1.reports ≠ [] := by
      intro hnil
      obtain ⟨hscan, hread⟩ := List.append_eq_nil_iff.mp hnil
      rw [Scan.fault?, ProgramReading.fault?, hscan, hread] at hfault
      cases hfault
    refine ⟨fault, _, hfaults, ?_⟩
    rw [runStatements_of_fault _ hparser hfault, readProgram_eq]
    exact ⟨rfl, scan_console bench source, hreported.report _ _ _ _⟩

/-- Evaluate a tree that was read. -/
def runTree (bench : Workbench) : Tree → UnitOutcome × Workbench
  | .program statements => bench.interpret statements
  | .expression value => bench.evaluate value

/-- A unit that is read is evaluated after its tokens were shown, with nothing reported. -/
theorem run_of_reads (bench : Workbench) {kind : UnitKind} {source : Text} {tree : Tree}
    (h : kind.Reads source tree) :
    ∃ mid, bench.run kind source = mid.runTree tree ∧ mid.settings = bench.settings ∧
      mid.console =
        (bench.settings.tokenLines (Scan.ofSource source).tokens).foldl Console.writeLine
          bench.console ∧
      bench.Reported [] [] mid := by
  have hreported := Reported.scan bench source
  have hsettings : (bench.reset.scan source).2.settings = bench.settings := by
    rw [scan_eq, showTokens_eq]
    rfl
  cases h with
  | @program kind parser hkind hscan hparser hread =>
    refine ⟨((bench.reset.scan source).2.readProgram parser).2, ?_, ?_, ?_, ?_⟩
    · have hclean : Fault.join [(Scan.ofSource source).fault?, parser.program.1.fault?] = none := by
        rw [hscan, hread]
        rfl
      rw [run_statements bench hkind, runStatements_of_clean _ hparser hclean]
      rfl
    · rw [readProgram_eq]
      exact hsettings
    · rw [readProgram_eq]
      exact scan_console bench source
    · rw [readProgram_eq]
      rw [Fault.eq_nil_of_join hscan] at hreported
      have hclean := hreported.report parser.program.1.reports "parsed"
        [("statements", some (Text.ofNat parser.program.1.statements.length))]
        parser.program.1.fault?
      rwa [Fault.eq_nil_of_join hread] at hclean ⊢
  | @expression parser value hscan hparser hread =>
    refine ⟨((bench.reset.scan source).2.readExpression parser).2, ?_, ?_, ?_, ?_⟩
    · rw [run_expression, runExpression_of_ok _ hscan hparser hread]
      rfl
    · rw [readExpression_of_ok _ hread]
      exact hsettings
    · rw [readExpression_of_ok _ hread]
      exact scan_console bench source
    · rw [readExpression_of_ok _ hread]
      rw [Fault.eq_nil_of_join hscan] at hreported
      exact hreported.report [] "parsed" [("expression", some (Text.ofBool true))] none

/-- An execution ends a unit with its fault, which it reports unless it is a cancellation. -/
theorem Reported.ofExecution {α : Type} {bench mid : Workbench} (h : bench.Reported [] [] mid)
    (text : α → Text) (message : String) {run : Execution α × Interpreter}
    {execution : Execution α} (hrun : run.1 = execution) (hreports : execution.ReportsFault) :
    let fault := execution.runFault?.map RunFault.toFault
    (UnitOutcome.ofExecution text run.1).fault = fault ∧
      bench.Reported [] (fault.toList.filter fun fault => !fault.isCancellation)
        (mid.settle message run) := by
  have hsettled := h.settle message run
  rw [hrun, hreports, Execution.fault?_eq] at hsettled
  rw [hrun]
  exact ⟨Execution.fault?_eq execution, hsettled⟩

/-- Evaluating a tree shows it and ends with the fault of its evaluation, which is reported unless
it is a cancellation. -/
theorem Reported.runTree {bench mid : Workbench} (h : bench.Reported [] [] mid) (tree : Tree) :
    let console := (mid.settings.treeLines tree).foldl Console.writeLine mid.console
    let fault := (tree.fault? console).map RunFault.toFault
    (mid.runTree tree).1.fault = fault ∧
      bench.Reported [] (fault.toList.filter fun fault => !fault.isCancellation)
        (mid.runTree tree).2 := by
  cases tree with
  | program statements =>
    rw [Workbench.runTree, interpret, showTrees_statements]
    exact (h.showLines _).ofExecution id "interpreted" (Interpreter.interpret_fst _ _ _)
      (Execution.statementsFrom_reportsFault _ _ _ _ _)
  | expression value =>
    rw [Workbench.runTree, evaluate, showTrees_expression]
    exact (h.showLines _).ofExecution Value.textOf "evaluated" (Interpreter.evaluate_fst _ _ _)
      (Execution.expression_reportsFault _ _)

/-- What is left to do with a unit that was run alone: a record if it failed, and the result of an
expression. -/
def finish (bench : Workbench) (kind : UnitKind) (outcome : UnitOutcome) : Workbench :=
  if kind = .expression then (bench.logFailure outcome.fault).echo outcome.text
  else bench.logFailure outcome.fault

/-- A unit that is run alone is run, finished and concluded. -/
theorem runSource_eq (bench : Workbench) (kind : UnitKind) (source : Text) :
    bench.runSource kind source =
      ((bench.run kind source).2.finish kind (bench.run kind source).1).conclude
        (bench.run kind source).1.fault :=
  rfl

/-- Finishing a unit reports nothing. -/
theorem Reported.finish {bench mid : Workbench} {faults reports : List Fault}
    (h : bench.Reported faults reports mid) (kind : UnitKind) (outcome : UnitOutcome) :
    bench.Reported faults reports (mid.finish kind outcome) := by
  unfold Workbench.finish
  split
  · exact (h.logFailure outcome.fault).echo outcome.text
  · exact h.logFailure outcome.fault

/-- The record of a failure does not show on the console. -/
theorem logFailure_console (bench : Workbench) (fault : Option Fault) :
    (bench.logFailure fault).console = bench.console := by
  unfold logFailure
  split
  · rfl
  · split <;> rfl

/-- A unit without a result writes nothing more to the console. -/
theorem finish_console (bench : Workbench) (kind : UnitKind) (fault : Option Fault) :
    (bench.finish kind { fault := fault }).console = bench.console := by
  unfold finish echo
  split
  · rw [if_pos rfl, logFailure_console]
  · exact logFailure_console bench fault

/-- A rejected unit ends with the code for faults of the source. Its faults are shown, and nothing
but its tokens is on the console. -/
theorem runSource_of_rejects (bench : Workbench) {kind : UnitKind} {source : Text}
    (h : kind.Rejects source) :
    (bench.runSource kind source).1 = .data ∧
      (bench.runSource kind source).2.console =
        (bench.settings.tokenLines (Scan.ofSource source).tokens).foldl Console.writeLine
          bench.console ∧
      ∃ faults, faults ≠ [] ∧ ∀ level time, level.Quiet →
        (bench.runSource kind source).2.shown level time =
          bench.shown level time ++ reportLines faults := by
  obtain ⟨fault, faults, hfaults, houtcome, hconsole, hreported⟩ := bench.run_of_rejects h
  rw [runSource_eq, houtcome]
  have hfinished := hreported.finish kind { fault := some fault }
  have hhad : ((bench.run kind source).2.finish kind { fault := some fault }).reporter.hadError =
      true := by
    rw [hfinished.hadError]
    cases faults with
    | nil => exact absurd rfl hfaults
    | cons => rfl
  rw [conclude, if_pos hhad]
  refine ⟨rfl, (finish_console _ _ _).trans hconsole, faults, hfaults, ?_⟩
  intro level time hquiet
  rw [hfinished.shown level time hquiet, List.append_nil]

/-- After an evaluation the conclusion tells whether it ended early. Its fault is shown, whether it
was reported before or is only written now. -/
theorem Reported.conclude {bench mid : Workbench} {fault : Option RunFault}
    (h : bench.Reported []
      ((fault.map RunFault.toFault).toList.filter fun fault => !fault.isCancellation) mid) :
    (mid.conclude (fault.map RunFault.toFault)).1 =
        (if fault.isSome then .software else .success) ∧
      ∀ level time, level.Quiet →
        (mid.conclude (fault.map RunFault.toFault)).2.shown level time =
          bench.shown level time ++ reportLines (fault.map RunFault.toFault).toList := by
  have hnone : ¬ mid.reporter.hadError = true := by
    rw [h.hadError]
    decide
  unfold Workbench.conclude
  rw [if_neg hnone]
  cases fault with
  | none =>
    have hquiet : ¬ mid.reporter.hadRuntimeError = true := by
      rw [h.hadRuntimeError]
      decide
    rw [if_neg hquiet]
    exact ⟨rfl, h.shown⟩
  | some fault =>
    cases hcancelled : fault.toFault.isCancellation with
    | false =>
      simp only [Option.map_some, Option.toList_some, List.filter_cons, hcancelled, Bool.not_false,
        if_true, List.filter_nil] at h
      have hreported : mid.reporter.hadRuntimeError = true := h.hadRuntimeError
      rw [if_pos hreported]
      exact ⟨rfl, h.shown⟩
    | true =>
      simp only [Option.map_some, Option.toList_some, List.filter_cons, hcancelled, Bool.not_true,
        Bool.false_eq_true, if_false, List.filter_nil] at h
      have hquiet : ¬ mid.reporter.hadRuntimeError = true := by
        rw [h.hadRuntimeError]
        decide
      rw [if_neg hquiet]
      refine ⟨rfl, fun level time hlevel => ?_⟩
      dsimp only [Option.map_some]
      rw [shown_say, h.shown level time hlevel]
      simp [reportLines]

/-- A unit that is read ends as its evaluation does. -/
theorem runSource_of_reads (bench : Workbench) {kind : UnitKind} {source : Text} {tree : Tree}
    (h : kind.Reads source tree) :
    let fault := tree.fault? (bench.settings.consoleFor source tree bench.console)
    (bench.runSource kind source).1 = (if fault.isSome then .software else .success) ∧
      ∀ level time, level.Quiet →
        (bench.runSource kind source).2.shown level time =
          bench.shown level time ++ reportLines (fault.map RunFault.toFault).toList := by
  obtain ⟨mid, hrun, hsettings, hconsole, hmid⟩ := bench.run_of_reads h
  obtain ⟨hfault, hreported⟩ := hmid.runTree tree
  rw [hsettings, hconsole, ← List.foldl_append] at hfault hreported
  rw [runSource_eq, hrun, hfault]
  exact (hreported.finish kind (mid.runTree tree).1).conclude

end Workbench

/-- Different exit codes have different numbers. -/
theorem ExitCode.number_inj (code other : ExitCode) :
    code.number = other.number ↔ code = other := by
  cases code <;> cases other <;> decide

namespace App

/-- A task that runs one unit alone: an expression, or a script that can be read. -/
inductive Runs (app : App) : Task → UnitKind → Text → Prop where
  /-- An expression is the source itself. -/
  | expression (source : Text) : Runs app (.expression source) .expression source
  /-- A script is the text of its file. -/
  | script {path : Text} {bytes : List UInt8} (hfile : app.files.lookup path = some bytes) :
      Runs app (.script path) .script (Utf8.decode bytes)

/-- A plan for one unit runs it on a workbench of the app. -/
theorem Runs.carryOut_eq {app : App} {plan : Plan} {kind : UnitKind} {source : Text}
    (h : app.Runs plan.task kind source) :
    app.carryOut plan = (app.workbench plan.settings).runSource kind source := by
  unfold App.carryOut
  generalize plan.task = task at h
  cases h with
  | expression => rfl
  | script hfile =>
    dsimp only
    rw [Workbench.runFile, hfile]

/-- A call that carries out a plan answers with the code and the console of the carrying out, and
with what its stream shows. -/
theorem call_of_run {arguments : List Text} {plan : Plan}
    (hrequest : Request.ofArguments arguments = .ok (.run plan)) (app : App) (time : Text) :
    (app.call time arguments).1 =
      ⟨(app.carryOut plan).1,
        (app.carryOut plan).2.console.outputFrom app.console.writes.length,
        (app.carryOut plan).2.shown plan.level time⟩ := by
  rw [call, hrequest]
  rfl

/-- What lines on a console add to its output. -/
theorem outputFrom_foldl_writeLine (console : Console) (lines : List Text) :
    ∃ taken, taken <+: lines ∧ (console.failAfter = none → taken = lines) ∧
      (lines.foldl Console.writeLine console).outputFrom console.writes.length =
        taken.flatMap Text.line := by
  obtain ⟨taken, htaken, hall, hconsole⟩ := console.foldl_writeLine lines
  refine ⟨taken, htaken, hall, ?_⟩
  rw [hconsole, Console.outputFrom, List.drop_left, List.flatMap_def]

section Units

variable (app : App) (time : Text) {arguments : List Text} {plan : Plan} {kind : UnitKind}
  {source : Text}

/-- A call for a unit that is rejected answers with the code for faults of the source, with tokens
at most and with its faults. -/
theorem call_of_rejects (hrequest : Request.ofArguments arguments = .ok (.run plan))
    (hruns : app.Runs plan.task kind source) (h : kind.Rejects source) :
    (app.call time arguments).1.code = .data ∧
      (∃ lines, lines <+: plan.settings.tokenLines (Scan.ofSource source).tokens ∧
        (app.console.failAfter = none →
          lines = plan.settings.tokenLines (Scan.ofSource source).tokens) ∧
        (app.call time arguments).1.output = lines.flatMap Text.line) ∧
      ∃ faults, faults ≠ [] ∧
        (plan.level.Quiet → (app.call time arguments).1.errors = reportLines faults) := by
  obtain ⟨hcode, hconsole, faults, hfaults, hshown⟩ :=
    (app.workbench plan.settings).runSource_of_rejects h
  rw [call_of_run hrequest, hruns.carryOut_eq, hcode, hconsole]
  exact ⟨rfl, outputFrom_foldl_writeLine app.console _, faults, hfaults, hshown plan.level time⟩

/-- A call for a unit that is read answers with the code for how its evaluation ended and with the
fault of the evaluation. -/
theorem call_of_reads (hrequest : Request.ofArguments arguments = .ok (.run plan))
    (hruns : app.Runs plan.task kind source) {tree : Tree} (h : kind.Reads source tree) :
    let fault := tree.fault? (plan.settings.consoleFor source tree app.console)
    (app.call time arguments).1.code = (if fault.isSome then .software else .success) ∧
      (plan.level.Quiet →
        (app.call time arguments).1.errors =
          reportLines (fault.map RunFault.toFault).toList) := by
  obtain ⟨hcode, hshown⟩ := (app.workbench plan.settings).runSource_of_reads h
  rw [call_of_run hrequest, hruns.carryOut_eq, hcode]
  exact ⟨rfl, hshown plan.level time⟩

end Units

/-- The exit code of a call that runs one unit tells how the unit ended, whatever is shown beside
its output and wherever the console fails or cancels it. It is 65 if scanning or reading returned a
fault, 70 if both were clean and evaluation ended early, and 0 if both were clean and evaluation
completed. It is also 70 if both were clean and the unit is cancelled at any of its checks, even
between statements that write nothing. With code 65 nothing but tokens was written, in order and up
to a failing write. At the levels that leave out all records the code is 0 exactly if no error was
written. -/
theorem call_code_classifies (app : App) (time : Text) {arguments : List Text} {plan : Plan}
    {kind : UnitKind} {source : Text}
    (hrequest : Request.ofArguments arguments = .ok (.run plan))
    (hruns : app.Runs plan.task kind source) :
    let call := (app.call time arguments).1
    let tokenLines := plan.settings.tokenLines (Scan.ofSource source).tokens
    let fault := fun tree : Tree =>
      tree.fault? (plan.settings.consoleFor source tree app.console)
    (call.code.number = 65 ↔ kind.Rejects source) ∧
    (call.code.number = 70 ↔ ∃ tree, kind.Reads source tree ∧ (fault tree).isSome) ∧
    (call.code.number = 0 ↔ ∃ tree, kind.Reads source tree ∧ fault tree = none) ∧
    (∀ tree, kind.Reads source tree → app.console.CancelsWithin tree.checks →
      call.code.number = 70) ∧
    (call.code.number = 65 → ∃ lines, lines <+: tokenLines ∧
      (app.console.failAfter = none → lines = tokenLines) ∧
      call.output = lines.flatMap Text.line) ∧
    (plan.level.Quiet → (call.code.number = 0 ↔ call.errors = [])) := by
  intro call tokenLines fault
  have hrejected : kind.Rejects source → call.code = .data :=
    fun h => (app.call_of_rejects time hrequest hruns h).1
  have hfailed : (∃ tree, kind.Reads source tree ∧ (fault tree).isSome) →
      call.code = .software := by
    rintro ⟨tree, hreads, hfault⟩
    exact (app.call_of_reads time hrequest hruns hreads).1.trans (if_pos hfault)
  have hcompleted : (∃ tree, kind.Reads source tree ∧ fault tree = none) →
      call.code = .success := by
    rintro ⟨tree, hreads, hfault⟩
    have hsome : ¬ (fault tree).isSome = true := by simp [hfault]
    exact (app.call_of_reads time hrequest hruns hreads).1.trans (if_neg hsome)
  -- Every unit ends in one of three ways, and each way has a code of its own, so a code tells the
  -- way.
  have hcases : kind.Rejects source ∨ (∃ tree, kind.Reads source tree ∧ (fault tree).isSome) ∨
      ∃ tree, kind.Reads source tree ∧ fault tree = none := by
    rcases kind.rejects_or_reads source with hrejects | ⟨tree, hreads⟩
    · exact .inl hrejects
    · cases hfault : fault tree with
      | some fault => exact .inr (.inl ⟨tree, hreads, by rw [hfault]; rfl⟩)
      | none => exact .inr (.inr ⟨tree, hreads, hfault⟩)
  have hdata : call.code.number = 65 ↔ call.code = .data :=
    ExitCode.number_inj call.code .data
  have hsoftware : call.code.number = 70 ↔ call.code = .software :=
    ExitCode.number_inj call.code .software
  have hsuccess : call.code.number = 0 ↔ call.code = .success :=
    ExitCode.number_inj call.code .success
  rw [hdata, hsoftware, hsuccess]
  refine ⟨by grind, by grind, by grind, fun tree hreads hcancels => ?_, fun hcode => ?_,
    fun hquiet => ?_⟩
  · exact hfailed ⟨tree, hreads, (hcancels.foldl_writeLine _).fault?⟩
  · have hrejects : kind.Rejects source := by grind
    exact (app.call_of_rejects time hrequest hruns hrejects).2.1
  · rcases kind.rejects_or_reads source with hrejects | ⟨tree, hreads⟩
    · obtain ⟨hcode, -, faults, hfaults, herrors⟩ :=
        app.call_of_rejects time hrequest hruns hrejects
      have hne : call.errors ≠ [] := by
        rw [herrors hquiet, Ne, reportLines_eq_nil_iff]
        exact hfaults
      exact iff_of_false (by rw [hcode]; simp) hne
    · obtain ⟨hcode, herrors⟩ := app.call_of_reads time hrequest hruns hreads
      rw [herrors hquiet, reportLines_eq_nil_iff, hcode]
      cases tree.fault? (plan.settings.consoleFor source tree app.console) <;> simp

/-- A script with a stray character after a statement is not evaluated, on a console that takes one
line and then cancels; its tokens are shown as far as the console takes them. A script that writes
nothing is cancelled between its two statements. -/
theorem call_code_classifies_stray :
    let bytes := Utf8.encode "nil; #".toList
    let silent := Utf8.encode "var a; var b;".toList
    let app : App :=
      { files := [(['a'], bytes)], console := { failAfter := some 1, cancelAfter := some 1 } }
    let other : App :=
      { files := [(['a'], silent)]
        console := { cancelAfter := some 0, patience := 1, patient := rfl } }
    let arguments := ["--print-tokens".toList, ['a']]
    let plan : Plan := ⟨.script ['a'], ⟨none, true⟩, .warn⟩
    Request.ofArguments arguments = .ok (.run plan) ∧
      app.Runs plan.task .script (Utf8.decode bytes) ∧
      (app.call [] arguments).1.code.number = 65 ∧
      (app.call [] arguments).1.errors ≠ [] ∧
      other.Runs plan.task .script (Utf8.decode silent) ∧
      (∃ tree, UnitKind.script.Reads (Utf8.decode silent) tree ∧
        other.console.CancelsWithin tree.checks) ∧
      (other.call [] arguments).1.code.number = 70 := by
  intro bytes silent app other arguments plan
  have hrequest : Request.ofArguments arguments = .ok (.run plan) := rfl
  have hruns : app.Runs plan.task .script (Utf8.decode bytes) := .script rfl
  have hrejects : UnitKind.Rejects (Utf8.decode bytes) .script :=
    .scan (by decide +kernel)
  obtain ⟨hdata, -, -, -, -, hsilent⟩ := call_code_classifies app [] hrequest hruns
  have hnumber := hdata.mpr hrejects
  have hothers : other.Runs plan.task .script (Utf8.decode silent) := .script rfl
  obtain ⟨parser, hparser, -⟩ := Scan.ofSource_closed UnitKind.script.options (Utf8.decode silent)
  have hread : (Parser.ofTokens UnitKind.script.options
      (Scan.ofSource (Utf8.decode silent)).tokens).toOption.map (fun parser =>
        (parser.program.1.fault?.isNone, parser.program.1.statements.length)) =
      some (true, 2) := by decide +kernel
  rw [hparser] at hread
  obtain ⟨hclean, htwo⟩ := Prod.mk.inj (Option.some.inj hread)
  have hscan : (Scan.ofSource (Utf8.decode silent)).fault? = none :=
    Option.isNone_iff_eq_none.mp (by decide +kernel)
  have hreads := UnitKind.Reads.program (by decide) hscan hparser
    (Option.isNone_iff_eq_none.mp hclean)
  have hcancels : other.console.CancelsWithin (Tree.program parser.program.1.statements).checks :=
    ⟨rfl, by rw [Tree.checks, htwo]; decide⟩
  obtain ⟨-, -, -, hcancelled, -⟩ := call_code_classifies other [] hrequest hothers
  refine ⟨hrequest, hruns, hnumber, fun hnil => ?_, hothers, ⟨_, hreads, hcancels⟩,
    hcancelled _ hreads hcancels⟩
  rw [(hsilent (.inl rfl)).mpr hnil] at hnumber
  cases hnumber

end App

end Lox
