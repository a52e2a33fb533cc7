import Lox.Proofs.Evaluation.Undisturbed
import Lox.Proofs.Reporting.History

/-!
# Runs that are cut short

A console that stops taking writes, or that cancels the program, changes nothing about a run up to
the point where it stops it. A failing write stops a run within the statement that makes it and is
reported. A cancellation stops a run between two statements and is not reported, so after the last
statement it comes too late. Everything is compared with the undisturbed run of the same statements:
which of them were executed, what they left and what they wrote.
-/

namespace Lox

namespace Execution

/-- The `k`-th write of a program is made by the statement at an index: the statements before it
write fewer times, and with it they write as often as that. -/
def WritesAt (statements : List Stmt) (k index : Nat) : Prop :=
  (writesOf (statements.take index)).length < k ∧
    k ≤ (writesOf (statements.take (index + 1))).length

/-- Every write of a program is made by one of its statements. -/
theorem exists_writesAt {statements : List Stmt} {k : Nat} (hpos : 0 < k)
    (hle : k ≤ (writesOf statements).length) :
    ∃ index < statements.length, WritesAt statements k index := by
  have hsearch : ∀ count, k ≤ (writesOf (statements.take count)).length →
      ∃ index < count, WritesAt statements k index := by
    intro count hcount
    induction count with
    | zero => exact absurd (Nat.lt_of_lt_of_le hpos hcount) (Nat.lt_irrefl 0)
    | succ count ih =>
      by_cases hearlier : k ≤ (writesOf (statements.take count)).length
      · obtain ⟨index, hlt, hindex⟩ := ih hearlier
        exact ⟨index, Nat.lt_succ_of_lt hlt, hindex⟩
      · exact ⟨count, Nat.lt_succ_self count, Nat.lt_of_not_le hearlier, hcount⟩
  exact hsearch statements.length (by rwa [List.take_length])

/-- A statement makes the `k`-th write after the statements before it. -/
structure Makes (before : List Stmt) (statement : Stmt) (k : Nat) : Prop where
  /-- The statements before it are executed. -/
  reached : ∃ text, (undisturbed before).outcome = .ok text
  /-- It writes. -/
  writes : statement.written (environmentOf before) ≠ []
  /-- It is executed itself. -/
  executed : ∃ text, (undisturbed (before ++ [statement])).outcome = .ok text
  /-- The statements before it make all writes but one. -/
  earlier : (writesOf before).length + 1 = k
  /-- With it there are as many writes. -/
  total : (writesOf (before ++ [statement])).length = k

/-- The statement at the index where a write is made makes that write. -/
theorem WritesAt.exists_makes {statements : List Stmt} {k index : Nat}
    (h : WritesAt statements k index) :
    ∃ statement, index < statements.length ∧
      statements.take (index + 1) = statements.take index ++ [statement] ∧
      Makes (statements.take index) statement k := by
  obtain ⟨hbefore, hwith⟩ := h
  have hlt : index < statements.length := by
    apply Classical.byContradiction
    intro hnot
    have hle : statements.length ≤ index := Nat.le_of_not_lt hnot
    rw [List.take_of_length_le (Nat.le_succ_of_le hle)] at hwith
    rw [List.take_of_length_le hle] at hbefore
    omega
  have htake : statements.take (index + 1) = statements.take index ++ [statements[index]] :=
    List.take_succ_eq_append_getElem hlt
  refine ⟨statements[index], hlt, htake, ?_⟩
  rw [htake] at hwith
  rcases writesOf_concat (statements.take index) statements[index] with
    hsame | ⟨text, line, text', hok, hline, hwrites, hok'⟩
  · rw [hsame] at hwith
    omega
  · have htotal : (writesOf (statements.take index ++ [statements[index]])).length =
        (writesOf (statements.take index)).length + 1 := by
      rw [hwrites, List.length_append, List.length_singleton]
    exact ⟨⟨text, hok⟩, by rw [hline]; exact nofun, ⟨text', hok'⟩, by omega, by omega⟩

end Execution

/-- A console with earlier writes that takes `k` more and fails every write after them. -/
def Console.failing (past : List Text) (k : Nat) : Console :=
  { writes := past, failAfter := some (past.length + k) }

/-- A console with earlier writes that cancels the program once `k` more were made. -/
def Console.cancelling (past : List Text) (k : Nat) : Console :=
  { writes := past, cancelAfter := some (past.length + k) }

namespace Console

variable (past : List Text) (k : Nat)

/-- A console that fails takes writes up to its limit. -/
theorem failing_takes {count : Nat} (h : count ≤ k) : (failing past k).Takes count := by
  intro limit hlimit
  cases hlimit
  exact Nat.add_le_add_left h past.length

/-- A console that cancels takes all writes. -/
theorem cancelling_takes (count : Nat) : (cancelling past k).Takes count :=
  fun limit hlimit => by cases hlimit

/-- A console does not cancel before the writes were made. -/
theorem cancelling_of_lt {texts : List Text} (h : texts.length < k) :
    ((cancelling past k).adding texts).cancelled = false := by
  change decide (past.length + k ≤ (past ++ texts).length) = false
  rw [List.length_append]
  exact decide_eq_false (by omega)

/-- A console cancels as soon as the writes were made. -/
theorem cancelling_of_le {texts : List Text} (h : k ≤ texts.length) :
    ((cancelling past k).adding texts).cancelled = true := by
  change decide (past.length + k ≤ (past ++ texts).length) = true
  rw [List.length_append]
  exact decide_eq_true (by omega)

end Console

namespace Execution

/-- A program is not disturbed by a console that takes all its writes before it fails. -/
theorem program_failing_of_le {statements : List Stmt} {k : Nat}
    (h : (writesOf statements).length ≤ k) (past : List Text) :
    program (.failing past k) statements =
      { undisturbed statements with
        console := (Console.failing past k).adding (writesOf statements) } :=
  program_of_takes rfl (Console.failing_takes past k h) fun _ _ => rfl

/-- A program ends in the statement whose write fails, whatever comes after it. -/
theorem program_failing {before : List Stmt} {statement : Stmt} {k : Nat}
    (h : Makes before statement (k + 1)) (past : List Text) (rest : List Stmt) :
    program (.failing past k) (before ++ statement :: rest) =
      ⟨.error .writeFailed, (undisturbed before).notices ++ [.failed .writeFailed],
        (Console.failing past k).adding (writesOf before)⟩ := by
  obtain ⟨text, hok⟩ := h.reached
  have hcount : (writesOf before).length = k := Nat.succ.inj h.earlier
  have htakes := Console.failing_takes past k (Nat.le_of_eq hcount)
  have hfails : ((Console.failing past k).adding (writesOf before)).fails = true := by
    change decide (past.length + k ≤ (past ++ writesOf before).length) = true
    rw [List.length_append, hcount]
    exact decide_eq_true (Nat.le_refl _)
  have hexecute : statement.execute (environmentOf before)
      ((Console.failing past k).adding (writesOf before)).checked =
      (.error .writeFailed, (Console.failing past k).adding (writesOf before)) :=
    Stmt.execute_of_fails hfails h.writes
  rw [program_append_of_takes hok rfl htakes (fun _ _ => rfl),
    statementsFrom_cons_of_error rfl hexecute]

/-- A program is not disturbed by a console that cancels it before none of its statements. -/
theorem program_cancelling_of_lt {statements : List Stmt} {k : Nat}
    (h : ∀ count < statements.length, (writesOf (statements.take count)).length < k)
    (past : List Text) :
    program (.cancelling past k) statements =
      { undisturbed statements with
        console := (Console.cancelling past k).adding (writesOf statements) } :=
  program_of_takes rfl (Console.cancelling_takes past k _) fun count hcount =>
    Console.cancelling_of_lt past k (h count hcount)

/-- A program ends between the statements that made the writes and the next one, whatever that
is. -/
theorem program_cancelling {before : List Stmt} {text : Text} {k : Nat}
    (hok : (undisturbed before).outcome = .ok text)
    (hgoes : ∀ count < before.length, (writesOf (before.take count)).length < k)
    (hreached : k ≤ (writesOf before).length) (past : List Text) {rest : List Stmt}
    (hrest : rest ≠ []) :
    program (.cancelling past k) (before ++ rest) =
      ⟨.error .cancelled, (undisturbed before).notices,
        (Console.cancelling past k).adding (writesOf before)⟩ := by
  obtain ⟨statement, others, rfl⟩ := List.exists_cons_of_ne_nil hrest
  have hstart : ∀ count < before.length, ((Console.cancelling past k).adding
      (writesOf (before.take count))).cancelled = false :=
    fun count hcount => Console.cancelling_of_lt past k (hgoes count hcount)
  rw [program_append_of_takes hok rfl (Console.cancelling_takes past k _) hstart,
    statementsFrom_cons_of_cancelled (Console.cancelling_of_le past k hreached)]
  dsimp only
  rw [List.append_nil]

/-- The first statements of a program give its first notices, if they are executed. -/
theorem notices_of_take {statements : List Stmt} {count : Nat} (hcount : count < statements.length)
    {text : Text} (hok : (undisturbed (statements.take count)).outcome = .ok text) :
    (undisturbed (statements.take count)).notices =
      (undisturbed statements).notices.take count := by
  have hlength : (undisturbed (statements.take count)).notices.length = count := by
    have hnotices : (undisturbed (statements.take count)).notices.length = _ :=
      length_notices_of_ok hok
    rw [hnotices, List.length_take_of_le (Nat.le_of_lt hcount)]
  have hwhole := undisturbed_append hok (statements.drop count)
  rw [List.take_append_drop] at hwhole
  rw [hwhole]
  exact (List.take_left' hlength).symm

/-- The first statements of a program make its first writes. -/
theorem writesOf_take_eq {statements : List Stmt} {count k : Nat}
    (hlength : (writesOf (statements.take count)).length = k) :
    writesOf (statements.take count) = (writesOf statements).take k := by
  have hprefix := writesOf_append (statements.take count) (statements.drop count)
  rw [List.take_append_drop] at hprefix
  rw [← hlength]
  exact List.prefix_iff_eq_take.mp hprefix

/-- A cancellation after `k` writes comes too late: there are fewer writes, or the last statement
makes the `k`-th one, or there is no statement. -/
def TooLate (statements : List Stmt) (k : Nat) : Prop :=
  (writesOf statements).length < k ∨
    (∃ last, last + 1 = statements.length ∧ WritesAt statements k last) ∨ k = 0 ∧ statements = []

/-- Where a cancellation comes too late, the writes were not made before any statement. -/
theorem TooLate.lt {statements : List Stmt} {k : Nat} (h : TooLate statements k) :
    ∀ count < statements.length, (writesOf (statements.take count)).length < k := by
  intro count hcount
  rcases h with hfewer | ⟨last, hlast, hwrites⟩ | ⟨-, rfl⟩
  · have hle := (writesOf_append (statements.take count) (statements.drop count)).length_le
    rw [List.take_append_drop] at hle
    omega
  · have hle := (writesOf_take (Nat.le_of_lt_succ (hlast ▸ hcount)) statements).length_le
    exact Nat.lt_of_le_of_lt hle hwrites.1
  · exact absurd hcount (Nat.not_lt_zero count)

/-- Where a cancellation does not come too late, some statement is the first one after the writes
were made. -/
theorem exists_stop {statements : List Stmt} {k : Nat} (h : ¬ TooLate statements k) :
    ∃ count < statements.length,
      (k = 0 ∧ count = 0 ∨ ∃ index, WritesAt statements k index ∧ count = index + 1) ∧
      (∃ text, (undisturbed (statements.take count)).outcome = .ok text) ∧
      (∀ fewer < count, (writesOf (statements.take fewer)).length < k) ∧
      (writesOf (statements.take count)).length = k := by
  unfold TooLate at h
  rw [not_or, not_or] at h
  obtain ⟨hfewer, hlast, hnone⟩ := h
  by_cases hk : k = 0
  · subst hk
    have hne : statements ≠ [] := fun hnil => hnone ⟨rfl, hnil⟩
    exact ⟨0, List.length_pos_iff.mpr hne, .inl ⟨rfl, rfl⟩, ⟨[], rfl⟩,
      fun fewer hlt => absurd hlt (Nat.not_lt_zero fewer), rfl⟩
  · obtain ⟨index, hindex, hwrites⟩ :=
      exists_writesAt (Nat.pos_of_ne_zero hk) (Nat.le_of_not_lt hfewer)
    obtain ⟨statement, -, htake, hmakes⟩ := hwrites.exists_makes
    have hnotLast : index + 1 ≠ statements.length := fun heq => hlast ⟨index, heq, hwrites⟩
    refine ⟨index + 1, by omega, .inr ⟨index, hwrites, rfl⟩, ?_, fun fewer hlt => ?_, ?_⟩
    · rw [htake]
      exact hmakes.executed
    · have hle := (writesOf_take (Nat.le_of_lt_succ hlt) statements).length_le
      exact Nat.lt_of_le_of_lt hle hwrites.1
    · rw [htake]
      exact hmakes.total

/-- The text that an execution returns: none if it ended early. -/
def text (execution : Execution Text) : Text :=
  match execution.outcome with
  | .ok text => text
  | .error _ => []

end Execution

namespace Session

open Execution

/-- Run a program on a console in place of that of the session. -/
def runOn (session : Session) (console : Console) (statements : List Stmt) : Step × Session :=
  { session with console := console }.run (.program statements)

/-- Two runs ended alike: they returned the same, gave the same notices, reported the same and wrote
the same. -/
def Alike (run other : Step × Session) : Prop :=
  run.1 = other.1 ∧ run.2.reporter = other.2.reporter ∧
    run.2.console.writes = other.2.console.writes

/-- Reports change the reporter, whatever the console. -/
theorem foldl_reportRuntimeError_console (session : Session) (console : Console)
    (faults : List Fault) :
    faults.foldl reportRuntimeError { session with console := console } =
      { session with
        console := console
        reporter := (faults.foldl reportRuntimeError session).reporter } := by
  induction faults generalizing session with
  | nil => rfl
  | cons fault faults ih => exact ih (session.reportRuntimeError fault)

/-- What a run returns and leaves, from how its execution went. -/
theorem runOn_eq (session : Session) (console : Console) (statements : List Stmt) :
    let execution := program console statements
    session.runOn console statements =
      (⟨.run, execution.fault?, execution.notices, .text execution.text⟩,
        { session with
          console := execution.console
          reporter := (execution.reports.foldl reportRuntimeError session).reporter }) := by
  dsimp only
  rw [← foldl_reportRuntimeError_console]
  rfl

/-- Runs on two consoles that do not disturb a program end alike. -/
theorem alike_of_undisturbed {statements : List Stmt} {console other after after' : Console}
    (h : program console statements = { undisturbed statements with console := after })
    (h' : program other statements = { undisturbed statements with console := after' })
    (hwrites : after.writes = after'.writes) (session : Session) :
    Alike (session.runOn console statements) (session.runOn other statements) := by
  rw [runOn_eq, runOn_eq, h, h']
  exact ⟨rfl, rfl, hwrites⟩

/-- A run that ends early returns the fault and no text, and reports the fault unless it was
cancelled. -/
theorem runOn_of_error {statements : List Stmt} {console after : Console} {fault : RunFault}
    {notices : List Notice}
    (h : program console statements = ⟨.error fault, notices, after⟩) (session : Session) :
    session.runOn console statements =
      (⟨.run, some fault.toFault, notices, .text []⟩,
        { session with
          console := after
          reporter :=
            if fault = .cancelled then session.reporter
            else (session.reportRuntimeError fault.toFault).reporter }) := by
  have hreports : (program console statements).ReportsFault :=
    statementsFrom_reportsFault 0 .empty console [] statements
  rw [h, ReportsFault, Execution.fault?] at hreports
  simp only [Option.toList_some, List.filter_cons, List.filter_nil,
    RunFault.isCancellation_toFault] at hreports
  rw [runOn_eq, h, hreports]
  by_cases hcancelled : fault = .cancelled
  · rw [decide_eq_true hcancelled, if_pos hcancelled]
    rfl
  · rw [decide_eq_false hcancelled, if_neg hcancelled]
    rfl

section Stopped

variable {statements : List Stmt} {k : Nat} (session : Session) (past : List Text)

/-- A run whose next write fails ends in the statement that makes it. -/
theorem runOn_failing {index : Nat} (h : WritesAt statements (k + 1) index) (others : List Stmt) :
    session.runOn (.failing past k) (statements.take (index + 1) ++ others) =
      (⟨.run, some RunFault.writeFailed.toFault,
          (undisturbed statements).notices.take index ++ [.failed .writeFailed], .text []⟩,
        { session with
          console := (Console.failing past k).adding ((writesOf statements).take k)
          reporter := (session.reportRuntimeError RunFault.writeFailed.toFault).reporter }) := by
  obtain ⟨statement, hindex, htake, hmakes⟩ := h.exists_makes
  obtain ⟨text, hok⟩ := hmakes.reached
  have hstops := program_failing hmakes past others
  rw [notices_of_take hindex hok, writesOf_take_eq (Nat.succ.inj hmakes.earlier)] at hstops
  rw [htake, List.append_assoc, List.singleton_append, runOn_of_error hstops]
  rfl

/-- A run that is cancelled between two statements ends there. -/
theorem runOn_cancelling {count : Nat} (hcount : count < statements.length) {text : Text}
    (hok : (undisturbed (statements.take count)).outcome = .ok text)
    (hgoes : ∀ fewer < count, (writesOf (statements.take fewer)).length < k)
    (hreached : (writesOf (statements.take count)).length = k) {others : List Stmt}
    (hothers : others ≠ []) :
    session.runOn (.cancelling past k) (statements.take count ++ others) =
      (⟨.run, some RunFault.cancelled.toFault, (undisturbed statements).notices.take count,
          .text []⟩,
        { session with
          console := (Console.cancelling past k).adding ((writesOf statements).take k) }) := by
  have hstart : ∀ fewer < (statements.take count).length,
      (writesOf ((statements.take count).take fewer)).length < k := by
    intro fewer hfewer
    have hlt : fewer < count := Nat.lt_of_lt_of_le hfewer (List.length_take_le count statements)
    rw [List.take_take, Nat.min_eq_left (Nat.le_of_lt hlt)]
    exact hgoes fewer hlt
  have hstops := program_cancelling hok hstart (Nat.le_of_eq hreached.symm) past hothers
  rw [notices_of_take hcount hok, writesOf_take_eq hreached] at hstops
  rw [runOn_of_error hstops]
  rfl

end Stopped

/-- A console that fails or cancels only truncates a run. The run is compared with the undisturbed
one, which makes certain writes after those of the past. If every write after the `k`-th fails, the
run ends alike where there are no more writes than that; otherwise it writes the first `k` of them,
executes all statements before the one that makes the next write, returns that the write failed
without a text and reports this once. If the program is cancelled once `k` writes were made, the run
ends alike where the cancellation comes too late: there are fewer writes, or the last statement
makes the `k`-th, or there is no statement. Otherwise it writes the first `k` of them, executes the
statements up to the one that makes the `k`-th write, returns that it was cancelled without a text
and reports nothing. Whatever stands after the point where a run is stopped does not matter. -/
theorem runOn_truncates (session : Session) (past : List Text) (statements : List Stmt) (k : Nat) :
    let writes := writesOf statements
    let whole := session.runOn { writes := past } statements
    let failing := session.runOn (.failing past k)
    let cancelling := session.runOn (.cancelling past k)
    whole.2.console.writes = past ++ writes ∧
    (writes.length ≤ k → Alike (failing statements) whole) ∧
    (k < writes.length → ∃ index, WritesAt statements (k + 1) index ∧
      (failing statements).1 = ⟨.run, some RunFault.writeFailed.toFault,
        whole.1.notices.take index ++ [.failed .writeFailed], .text []⟩ ∧
      (failing statements).2.console.writes = past ++ writes.take k ∧
      (failing statements).2.reporter =
        (session.reportRuntimeError RunFault.writeFailed.toFault).reporter ∧
      ∀ others, failing (statements.take (index + 1) ++ others) = failing statements) ∧
    (TooLate statements k → Alike (cancelling statements) whole) ∧
    (¬ TooLate statements k → ∃ count < statements.length,
      (k = 0 ∧ count = 0 ∨ ∃ index, WritesAt statements k index ∧ count = index + 1) ∧
      (cancelling statements).1 = ⟨.run, some RunFault.cancelled.toFault,
        whole.1.notices.take count, .text []⟩ ∧
      (cancelling statements).2.console.writes = past ++ writes.take k ∧
      (cancelling statements).2.reporter = session.reporter ∧
      ∀ others, others ≠ [] →
        cancelling (statements.take count ++ others) = cancelling statements) := by
  intro writes whole failing cancelling
  have hundisturbed := program_writes past statements
  have hwhole : whole = _ := runOn_eq session { writes := past } statements
  rw [hundisturbed] at hwhole
  have hnotices : whole.1.notices = (undisturbed statements).notices := by rw [hwhole]
  refine ⟨?_, ?_, ?_, ?_, ?_⟩
  · rw [hwhole]
  · intro hle
    exact alike_of_undisturbed (program_failing_of_le hle past) hundisturbed rfl session
  · intro hlt
    obtain ⟨index, hindex, hwrites⟩ := exists_writesAt (Nat.succ_pos k) hlt
    have hstops : ∀ others, failing (statements.take (index + 1) ++ others) = _ :=
      runOn_failing session past hwrites
    have hrun := hstops (statements.drop (index + 1))
    rw [List.take_append_drop] at hrun
    refine ⟨index, hwrites, ?_⟩
    rw [hrun, hnotices]
    exact ⟨rfl, rfl, rfl, hstops⟩
  · intro hlate
    exact alike_of_undisturbed (program_cancelling_of_lt hlate.lt past)
      hundisturbed rfl session
  · intro hearly
    obtain ⟨count, hcount, hpoint, ⟨text, hok⟩, hgoes, hreached⟩ := exists_stop hearly
    have hstops : ∀ others, others ≠ [] →
        cancelling (statements.take count ++ others) = _ :=
      fun others => runOn_cancelling session past hcount hok hgoes hreached
    have hrest : statements.drop count ≠ [] := by
      rw [Ne, List.drop_eq_nil_iff]
      omega
    have hrun := hstops (statements.drop count) hrest
    rw [List.take_append_drop] at hrun
    refine ⟨count, hcount, hpoint, ?_⟩
    rw [hrun, hnotices]
    exact ⟨rfl, rfl, rfl, hstops⟩

end Session

end Lox
