import Lox.Proofs.Evaluation.Statement
import Lox.Proofs.Reporting.Agreement
import Lox.Session

/-!
# What a reporter has seen

A history is a list of calls on one reporter, each with the fault it returned. Scanning and reading
a program return all their faults joined, the other calls return one; a run that was cancelled
returns a fault that nobody is told of. Otherwise what is written is what was returned, call by call
and in order, and what the reporter remembers is whether some call since the last reset returned a
fault.
-/

namespace Lox

namespace Fault

/-- The faults that were joined into one; a fault that is no joining stands alone. -/
def parts : Fault → List Fault
  | joined parts => parts
  | fault => [fault]

/-- The program was cancelled, which is nothing that went wrong with it. -/
def isCancellation : Fault → Bool
  | plain text => text = "context canceled".toList
  | _ => false

/-- Joining loses no fault and keeps their order. -/
theorem parts_join (faults : List Fault) :
    (join (faults.map some)).toList.flatMap parts = faults := by
  cases faults with
  | nil => rfl
  | cons fault faults => simp [join, parts]

/-- There is a joined fault exactly if there are faults to join. -/
theorem isSome_join (faults : List Fault) :
    (join (faults.map some)).isSome = !faults.isEmpty := by
  cases faults with
  | nil => rfl
  | cons fault faults => simp [join]

end Fault

/-- Faults on lines of their own. -/
def reportLines (faults : List Fault) : Text := faults.flatMap fun fault => Text.line fault.message

namespace Reporter

/-- Report several faults of evaluation in order. -/
def runtimeErrors (reporter : Reporter) (faults : List Fault) : Reporter :=
  faults.foldl (fun reporter fault => reporter.runtimeError (some fault)) reporter

/-- Several reports in order are the first one and then the others. -/
theorem runtimeErrors_cons (reporter : Reporter) (fault : Fault) (faults : List Fault) :
    reporter.runtimeErrors (fault :: faults) =
      (reporter.runtimeError (some fault)).runtimeErrors faults :=
  rfl

/-- What several reports of faults of evaluation make of a reporter. -/
theorem runtimeErrors_eq (reporter : Reporter) (faults : List Fault) :
    reporter.runtimeErrors faults =
      { reporter with
        written := reporter.written ++ reportLines faults
        hadRuntimeError := reporter.hadRuntimeError || !faults.isEmpty } := by
  induction faults generalizing reporter with
  | nil => simp [runtimeErrors, reportLines]
  | cons fault faults ih =>
    rw [runtimeErrors_cons, ih]
    simp [runtimeError, mention, lineOf, reportLines]

end Reporter

/-- Only cancellation is reported as such. -/
theorem RunFault.isCancellation_toFault (fault : RunFault) :
    fault.toFault.isCancellation = decide (fault = .cancelled) := by
  cases fault with
  | runtime fault => rfl
  | writeFailed => decide
  | cancelled => decide

/-- No statement is cancelled once it has begun. -/
theorem Stmt.execute_ne_cancelled {environment : Environment} {console after : Console}
    {statement : Stmt} {fault : RunFault}
    (h : statement.execute environment console = (.error fault, after)) : fault ≠ .cancelled := by
  rintro rfl
  have hexecutes := executes_execute environment console statement
  rw [h] at hexecutes
  cases hexecutes

namespace Execution

/-- The fault that ends an execution is reported, and nothing else is; that it was cancelled is
not. -/
def ReportsFault {α : Type} (execution : Execution α) : Prop :=
  execution.reports = execution.fault?.toList.filter fun fault => !fault.isCancellation

/-- A fault that ends an execution and is no cancellation is reported. -/
theorem reportsFault_failed {α : Type} {fault : RunFault} (hfault : fault ≠ .cancelled)
    (console : Console) :
    ReportsFault (⟨.error fault, [.failed fault], console⟩ : Execution α) := by
  have hreported : fault.toFault.isCancellation = false := by
    rw [RunFault.isCancellation_toFault, decide_eq_false hfault]
  simp [ReportsFault, reports, fault?, hreported]

/-- A cancelled execution reports nothing. -/
theorem reportsFault_cancelled {α : Type} (console : Console) :
    ReportsFault (⟨.error .cancelled, [], console⟩ : Execution α) := by
  have hquiet : RunFault.cancelled.toFault.isCancellation = true := by
    rw [RunFault.isCancellation_toFault, decide_eq_true rfl]
  simp [ReportsFault, reports, fault?, hquiet]

/-- Statements report the fault that ends them, once. -/
theorem statementsFrom_reportsFault (index : Nat) (environment : Environment) (console : Console)
    (text : Text) (statements : List Stmt) :
    (statementsFrom index environment console text statements).ReportsFault := by
  fun_induction statementsFrom index environment console text statements with
  | case1 => rfl
  | case2 => exact reportsFault_cancelled _
  | case3 index environment console text statement rest hcancelled fault after hexecute =>
    exact reportsFault_failed (Stmt.execute_ne_cancelled hexecute) after
  | case4 index environment console text statement rest hcancelled effect after hexecute later ih =>
    exact ih

/-- An expression reports its fault, once. -/
theorem expression_reportsFault (console : Console) (value : Expr) :
    (expression console value).ReportsFault := by
  fun_cases expression console value with
  | case1 => exact reportsFault_cancelled _
  | case2 => exact reportsFault_failed (by simp) _
  | case3 => rfl

end Execution

namespace Session

/-- Something that is done with a reporter at hand. -/
inductive Call where
  /-- Scan a source. -/
  | scan (source : Text)
  /-- Read a program. -/
  | readProgram (parser : Parser)
  /-- Read an expression. -/
  | readExpression (parser : Parser)
  /-- Run a tree on a console. -/
  | run (console : Console) (tree : Tree)
  /-- Reset the reporter. -/
  | reset

/-- Make a call: the fault it returns, if any, and the session afterwards. -/
def Call.make (session : Session) : Call → Option Fault × Session
  | scan source =>
    let (scanned, session) := session.scan source
    (scanned.fault?, session)
  | readProgram parser =>
    let (reading, session) := session.readProgram parser
    (reading.fault?, session)
  | readExpression parser =>
    match session.readExpression parser with
    | (.error fault, session) => (some (.parse fault), session)
    | (.ok _, session) => (none, session)
  | run console tree =>
    let (step, session) := { session with console := console }.run tree
    (step.fault, session)
  | reset => (none, session.reset)

/-- A call and the fault it returned. -/
structure Entry where
  /-- What was done. -/
  call : Call
  /-- What went wrong. -/
  fault : Option Fault

namespace Entry

/-- The faults to be reported, as the returned fault tells. -/
def due (entry : Entry) : List Fault :=
  match entry.call with
  | .scan _ | .readProgram _ => entry.fault.toList.flatMap Fault.parts
  | .readExpression _ => entry.fault.toList
  | .run _ _ => entry.fault.toList.filter fun fault => !fault.isCancellation
  | .reset => []

/-- The reporter was reset. -/
def isReset (entry : Entry) : Bool :=
  match entry.call with
  | .reset => true
  | _ => false

/-- A source could not be scanned or read. -/
def sourceFailed (entry : Entry) : Bool :=
  match entry.call with
  | .scan _ | .readProgram _ | .readExpression _ => entry.fault.isSome
  | _ => false

/-- A run failed otherwise than by being cancelled. -/
def runFailed (entry : Entry) : Bool :=
  match entry.call with
  | .run _ _ => entry.fault.any fun fault => !fault.isCancellation
  | _ => false

/-- The entry accounts for what became of the reporter. -/
structure Accounts (entry : Entry) (before after : Reporter) : Prop where
  /-- The faults that were due are written, and nothing else. -/
  written : after.written = before.written ++ reportLines entry.due
  /-- A fault of the source is remembered until the next reset. -/
  hadError : after.hadError = (!entry.isReset && before.hadError || entry.sourceFailed)
  /-- A fault of a run is remembered until the next reset. -/
  hadRuntimeError :
    after.hadRuntimeError = (!entry.isReset && before.hadRuntimeError || entry.runFailed)

/-- Faults of the source or of reading that were due and are reported are accounted for. -/
theorem accounts_errors {entry : Entry} {faults : List Fault} (hdue : entry.due = faults)
    (hreset : entry.isReset = false) (hsource : entry.sourceFailed = !faults.isEmpty)
    (hrun : entry.runFailed = false) (reporter : Reporter) :
    entry.Accounts reporter (reporter.errors faults) where
  written := by rw [Reporter.errors_written, hdue, reportLines]
  hadError := by rw [Reporter.errors_hadError, hreset, hsource, Bool.not_false, Bool.true_and]
  hadRuntimeError := by
    rw [Reporter.errors_hadRuntimeError, hreset, hrun, Bool.not_false, Bool.true_and, Bool.or_false]

/-- Faults of a run that were due and are reported are accounted for. -/
theorem accounts_runtimeErrors {entry : Entry} {faults : List Fault} (hdue : entry.due = faults)
    (hreset : entry.isReset = false) (hsource : entry.sourceFailed = false)
    (hrun : entry.runFailed = !faults.isEmpty) (reporter : Reporter) :
    entry.Accounts reporter (reporter.runtimeErrors faults) where
  written := by rw [Reporter.runtimeErrors_eq, hdue]
  hadError := by
    rw [Reporter.runtimeErrors_eq, hreset, hsource, Bool.not_false, Bool.true_and, Bool.or_false]
  hadRuntimeError := by
    rw [Reporter.runtimeErrors_eq, hreset, hrun, Bool.not_false, Bool.true_and]

/-- A run has failed exactly if there is something to report of it. -/
theorem runFailed_run (console : Console) (tree : Tree) (fault : Option Fault) :
    runFailed ⟨.run console tree, fault⟩ = !(due ⟨.run console tree, fault⟩).isEmpty := by
  cases fault with
  | none => rfl
  | some fault => cases hcancelled : fault.isCancellation <;> simp [runFailed, due, hcancelled]

end Entry

/-- Scanning reports the faults it returns. -/
theorem scan_eq (session : Session) (source : Text) :
    session.scan source =
      (Scan.ofSource source,
        { session with reporter := session.reporter.errors (Scan.ofSource source).reports }) := by
  rw [scan, Scan.ofSourceTo_eq]
  rfl

/-- Reading a program reports the faults it returns. -/
theorem readProgram_eq (session : Session) (parser : Parser) :
    session.readProgram parser =
      (parser.program.1,
        { session with reporter := session.reporter.errors parser.program.1.reports }) := by
  rw [readProgram, Parser.programTo_eq]
  rfl

/-- Reading an expression reports the fault it returns. -/
theorem readExpression_eq (session : Session) (parser : Parser) :
    session.readExpression parser =
      (parser.expression.1,
        match parser.expression.1 with
        | .error fault => { session with reporter := session.reporter.errors [.parse fault] }
        | .ok _ => session) := by
  rw [readExpression, Parser.expressionTo_eq]
  dsimp only
  cases parser.expression.1 <;> rfl

/-- Reporting faults of evaluation one after the other changes nothing but the reporter. -/
theorem foldl_reportRuntimeError (session : Session) (hshares : session.sharesReporter = true)
    (faults : List Fault) :
    faults.foldl reportRuntimeError session =
      { session with reporter := session.reporter.runtimeErrors faults } := by
  induction faults generalizing session with
  | nil => rfl
  | cons fault faults ih =>
    have hreport : session.reportRuntimeError fault =
        { session with reporter := session.reporter.runtimeError (some fault) } := by
      rw [reportRuntimeError, if_pos hshares]
    rw [List.foldl_cons, hreport, Reporter.runtimeErrors_cons]
    exact ih { session with reporter := session.reporter.runtimeError (some fault) } hshares

/-- A run returns the fault of its execution and reports it, unless it was cancelled. -/
theorem run_fault_reporter (session : Session) (hshares : session.sharesReporter = true)
    (tree : Tree) :
    (session.run tree).2.sharesReporter = true ∧
      (session.run tree).2.reporter =
        session.reporter.runtimeErrors
          ((session.run tree).1.fault.toList.filter fun fault => !fault.isCancellation) := by
  have hsettle : ∀ {α : Type} (execution : Execution α), execution.ReportsFault →
      (session.settle execution).sharesReporter = true ∧
        (session.settle execution).reporter = session.reporter.runtimeErrors
          (execution.fault?.toList.filter fun fault => !fault.isCancellation) := by
    intro α execution hreports
    rw [settle, foldl_reportRuntimeError { session with console := execution.console } hshares,
      hreports]
    exact ⟨hshares, rfl⟩
  cases tree with
  | program statements => exact hsettle _ (Execution.statementsFrom_reportsFault ..)
  | expression value => exact hsettle _ (Execution.expression_reportsFault ..)

namespace Call

/-- The fault that a call returns accounts for what becomes of the reporter. -/
theorem make_accounts {session : Session} (hshares : session.sharesReporter = true) (call : Call) :
    (call.make session).2.sharesReporter = true ∧
      Entry.Accounts ⟨call, (call.make session).1⟩ session.reporter
        (call.make session).2.reporter := by
  cases call with
  | scan source =>
    have hdue : Entry.due ⟨.scan source, (Scan.ofSource source).fault?⟩ =
        (Scan.ofSource source).reports := Fault.parts_join _
    rw [make, Session.scan_eq]
    exact ⟨hshares, Entry.accounts_errors hdue rfl (Fault.isSome_join _) rfl session.reporter⟩
  | readProgram parser =>
    have hdue : Entry.due ⟨.readProgram parser, parser.program.1.fault?⟩ =
        parser.program.1.reports := Fault.parts_join _
    rw [make, Session.readProgram_eq]
    exact ⟨hshares, Entry.accounts_errors hdue rfl (Fault.isSome_join _) rfl session.reporter⟩
  | readExpression parser =>
    rw [make, Session.readExpression_eq]
    cases parser.expression.1 with
    | error fault =>
      have hdue : Entry.due ⟨.readExpression parser, some (.parse fault)⟩ = [.parse fault] := rfl
      exact ⟨hshares, Entry.accounts_errors hdue rfl rfl rfl session.reporter⟩
    | ok value =>
      have hdue : Entry.due ⟨.readExpression parser, none⟩ = [] := rfl
      exact ⟨hshares, Entry.accounts_errors hdue rfl rfl rfl session.reporter⟩
  | run console tree =>
    obtain ⟨hafter, hreporter⟩ :=
      Session.run_fault_reporter { session with console := console } hshares tree
    refine ⟨hafter, ?_⟩
    rw [make, hreporter]
    exact Entry.accounts_runtimeErrors rfl rfl rfl (Entry.runFailed_run console tree _)
      session.reporter
  | reset => exact ⟨hshares, (List.append_nil _).symm, rfl, rfl⟩

end Call

/-- The entries since the last reset, the latest one first. -/
def sinceReset (entries : List Entry) : List Entry :=
  entries.reverse.takeWhile fun entry => !entry.isReset

/-- A reset leaves no entry before it, any other call adds its own. -/
theorem sinceReset_concat (entries : List Entry) (entry : Entry) :
    sinceReset (entries ++ [entry]) =
      if entry.isReset then [] else entry :: sinceReset entries := by
  rw [sinceReset, List.reverse_append, List.reverse_singleton, List.singleton_append,
    List.takeWhile_cons]
  cases entry.isReset <;> rfl

/-- Whether some entry since the last reset has a property, after one more entry. -/
theorem any_sinceReset_concat (entries : List Entry) (entry : Entry) (property : Entry → Bool)
    (hreset : entry.isReset = true → property entry = false) :
    (sinceReset (entries ++ [entry])).any property =
      (!entry.isReset && (sinceReset entries).any property || property entry) := by
  rw [sinceReset_concat]
  cases h : entry.isReset with
  | true => simp [hreset h]
  | false => simp [Bool.or_comm]

/-- The entries account for everything that the session's reporter has written and remembers. -/
structure Truthful (entries : List Entry) (session : Session) : Prop where
  /-- Runs report to the session's reporter. -/
  shares : session.sharesReporter = true
  /-- What was due is written in order, and nothing else. -/
  written : session.reporter.written = entries.flatMap fun entry => reportLines entry.due
  /-- A fault of the source or of reading is remembered until the next reset. -/
  hadError : session.reporter.hadError = (sinceReset entries).any Entry.sourceFailed
  /-- A fault of a run is remembered until the next reset. -/
  hadRuntimeError : session.reporter.hadRuntimeError = (sinceReset entries).any Entry.runFailed

/-- One more call keeps the entries truthful. -/
theorem Truthful.make {entries : List Entry} {session : Session} (h : Truthful entries session)
    (call : Call) :
    Truthful (entries ++ [⟨call, (call.make session).1⟩]) (call.make session).2 := by
  obtain ⟨hshares, haccounts⟩ := Call.make_accounts h.shares call
  refine ⟨hshares, ?_, ?_, ?_⟩
  · rw [haccounts.written, h.written, List.flatMap_append, List.flatMap_singleton]
  · rw [haccounts.hadError, h.hadError, any_sinceReset_concat]
    cases call <;> simp [Entry.isReset, Entry.sourceFailed]
  · rw [haccounts.hadRuntimeError, h.hadRuntimeError, any_sinceReset_concat]
    cases call <;> simp [Entry.isReset, Entry.runFailed]

/-- Make calls one after the other and keep the faults they return. -/
def history (entries : List Entry) (session : Session) : List Call → List Entry × Session
  | [] => (entries, session)
  | call :: calls =>
    let (fault, session) := call.make session
    history (entries ++ [⟨call, fault⟩]) session calls

/-- Any number of calls keeps the entries truthful. -/
theorem Truthful.history {entries : List Entry} {session : Session} (h : Truthful entries session)
    (calls : List Call) :
    Truthful (session.history entries calls).1 (session.history entries calls).2 := by
  induction calls generalizing entries session with
  | nil => exact h
  | cons call calls ih => exact ih (h.make call)

/-- Every call has its entry. -/
theorem history_calls (entries : List Entry) (session : Session) (calls : List Call) :
    (session.history entries calls).1.map Entry.call = entries.map Entry.call ++ calls := by
  induction calls generalizing entries session with
  | nil => exact (List.append_nil _).symm
  | cons call calls ih =>
    rw [history, ih, List.map_append, List.append_assoc]
    rfl

/-- Reading a program yields no statements if it returns a fault. -/
theorem readProgram_fault?_or_statements (session : Session) (parser : Parser) :
    (session.readProgram parser).1.fault? = none ∨
      (session.readProgram parser).1.statements = [] := by
  rw [readProgram_eq, ProgramReading.fault?, ProgramReading.reports, Parser.program_fst]
  dsimp only
  split
  · rename_i hfaults
    left
    rw [hfaults]
    rfl
  · exact .inr rfl

/-- Every fault is reported once and in order, and what a reporter remembers is true. After any
calls on a fresh session, what its reporter has written are the messages of the faults that were
returned, each on a line of its own: of a scan or a program all that were joined, of an expression
or a run the one there was, and nothing of a run that was cancelled. So it is for every further
call. The reporter remembers exactly the faults since the last reset. A program with a fault yields
no statements, and without a reporter the same is returned. -/
theorem reports_returned_faults (calls : List Call) :
    ∃ entries session, ({} : Session).history [] calls = (entries, session) ∧
      entries.map Entry.call = calls ∧
      session.reporter.written = (entries.flatMap fun entry => reportLines entry.due) ∧
      session.reporter.hadError = (sinceReset entries).any Entry.sourceFailed ∧
      session.reporter.hadRuntimeError = (sinceReset entries).any Entry.runFailed ∧
      (∀ call : Call, (call.make session).2.reporter.written =
        session.reporter.written ++ reportLines (Entry.due ⟨call, (call.make session).1⟩)) ∧
      (∀ parser, (session.readProgram parser).1.fault? = none ∨
        (session.readProgram parser).1.statements = []) ∧
      ∀ (reporter : Reporter) (source : Text) (parser : Parser),
        (Scan.ofSourceTo none source).1 = (Scan.ofSourceTo (some reporter) source).1 ∧
        (parser.programTo none).1 = (parser.programTo (some reporter)).1 ∧
        (parser.expressionTo none).1 = (parser.expressionTo (some reporter)).1 := by
  have hfresh : Truthful [] {} := ⟨rfl, rfl, rfl, rfl⟩
  have htruthful := hfresh.history calls
  refine ⟨_, _, rfl, history_calls [] {} calls, htruthful.written, htruthful.hadError,
    htruthful.hadRuntimeError, ?_, readProgram_fault?_or_statements _, ?_⟩
  · exact fun call => (Call.make_accounts htruthful.shares call).2.written
  · intro reporter source parser
    simp only [Scan.ofSourceTo_eq, Parser.programTo_eq, Parser.expressionTo_eq, and_self]

end Session

end Lox
