import Lox.Proofs.Command.Independence

/-!
# What the flags for diagnosis add

The flags that show tokens and trees write to the console before anything is evaluated. So a unit
that is run with them does what it does without them on a console that had their lines written to it
first, and on a working console those lines stand before what the unit writes by itself. The level
of records decides which records are written and nothing else; as all records are of little
importance, none is written by default.
-/

namespace Lox

/-- A working console takes all lines. -/
theorem Console.foldl_writeLine_working (writes lines : List Text) :
    lines.foldl writeLine (working writes) = working (writes ++ lines.map Text.line) := by
  obtain ⟨taken, -, hall, hconsole⟩ := (working writes).foldl_writeLine lines
  rw [hconsole, hall rfl]
  rfl

namespace Entry

/-- What an entry writes when records are left out. -/
def unlogged : Entry → Text
  | logged _ => []
  | plain text => text

/-- The entry is no record, or a record of little importance. -/
def Minor : Entry → Prop
  | logged record => record.level = .debug ∨ record.level = .info
  | plain _ => True

/-- At a quiet level an entry of little importance writes what it writes without records. -/
theorem Minor.text_eq {entry : Entry} (h : entry.Minor) {level : LogLevel} (hquiet : level.Quiet)
    (time : Text) : entry.text level time = entry.unlogged := by
  cases entry with
  | logged record => exact text_logged hquiet time h
  | plain text => rfl

end Entry

/-- The record of a notice is of little importance. -/
theorem Notice.minor_of_mem_entries (notice : Notice) : ∀ entry ∈ notice.entries, entry.Minor := by
  have hrecord : (Entry.logged notice.record).Minor := .inl notice.record_level
  cases notice with
  | executed index environment => exact List.forall_mem_singleton.mpr hrecord
  | failed fault =>
    exact List.forall_mem_cons.mpr ⟨hrecord, List.forall_mem_singleton.mpr trivial⟩

namespace Workbench

/-- The workbench without the settings that show tokens and trees. -/
def unset (bench : Workbench) : Workbench := { bench with settings := {} }

/-- Show lines and no tokens or trees after them. -/
def showInstead (bench : Workbench) (lines : List Text) : Workbench := bench.unset.showLines lines

section Unset

variable (bench : Workbench)

/-- Tokens are shown as if they had been written before scanning, and further lines after scanning
as well. -/
theorem scan_unset (source : Text) (more : List Text) :
    (bench.reset.scan source).2.showInstead more =
      ((bench.showInstead (bench.settings.tokenLines (Scan.ofSource source).tokens ++
        more)).reset.scan source).2 := by
  simp only [scan_eq, showTokens_eq, showInstead, showLines, List.foldl_append]
  rfl

/-- Reading a program shows nothing. -/
theorem readProgram_unset (parser : Parser) (lines : List Text) :
    (bench.readProgram parser).2.showInstead lines =
      ((bench.showInstead lines).readProgram parser).2 := by
  rw [readProgram_eq, readProgram_eq]
  rfl

/-- Reading an expression shows nothing. -/
theorem readExpression_unset (parser : Parser) (lines : List Text) :
    (bench.readExpression parser).2.showInstead lines =
      ((bench.showInstead lines).readExpression parser).2 := by
  cases hread : parser.expression.1 with
  | error fault =>
    rw [readExpression_of_error _ hread, readExpression_of_error _ hread]
    rfl
  | ok value =>
    rw [readExpression_of_ok _ hread, readExpression_of_ok _ hread]
    rfl

/-- A tree is shown as if it had been written before its evaluation. -/
theorem runTree_unset (tree : Tree) :
    Prod.map id unset (bench.runTree tree) =
      (bench.showInstead (bench.settings.treeLines tree)).runTree tree := by
  cases tree with
  | program statements =>
    simp only [runTree, interpret, showTrees_statements, settle_eq]
    rfl
  | expression value =>
    simp only [runTree, evaluate, showTrees_expression, settle_eq]
    rfl

variable {kind : UnitKind} {source : Text}

/-- A unit that is rejected shows its tokens as if they had been written before. -/
theorem run_unset_of_rejects (h : kind.Rejects source) :
    Prod.map id unset (bench.run kind source) =
      (bench.showInstead (bench.settings.tokenLines (Scan.ofSource source).tokens)).run kind
        source := by
  have hscan := bench.scan_unset source []
  rw [List.append_nil] at hscan
  by_cases hkind : kind = .expression
  · subst hkind
    rw [run_expression, run_expression, ← hscan]
    cases hfault : (Scan.ofSource source).fault? with
    | some fault =>
      rw [runExpression, runExpression, hfault]
      rfl
    | none =>
      cases h with
      | scan hsome => simp [hfault] at hsome
      | program hnot => exact absurd rfl hnot
      | expression hparser hread =>
        rw [runExpression_of_error _ hfault hparser hread,
          runExpression_of_error _ hfault hparser hread, ← readExpression_unset]
        rfl
  · obtain ⟨parser, hparser, -⟩ := Scan.ofSource_closed kind.options source
    obtain ⟨fault, hfault⟩ := exists_join_of_rejects h hkind hparser
    rw [run_statements bench hkind, run_statements _ hkind, ← hscan,
      runStatements_of_fault _ hparser hfault, runStatements_of_fault _ hparser hfault,
      ← readProgram_unset]
    rfl

/-- A unit that is read shows its tokens and its tree as if they had been written before. -/
theorem run_unset_of_reads {tree : Tree} (h : kind.Reads source tree) :
    Prod.map id unset (bench.run kind source) =
      (bench.showInstead (bench.settings.tokenLines (Scan.ofSource source).tokens ++
        bench.settings.treeLines tree)).run kind source := by
  have hscan := bench.scan_unset source (bench.settings.treeLines tree)
  have hsettings : (bench.reset.scan source).2.settings = bench.settings := by
    rw [scan_eq, showTokens_eq]
    rfl
  cases h with
  | @program kind parser hkind hfault hparser hread =>
    have hclean : Fault.join [(Scan.ofSource source).fault?, parser.program.1.fault?] = none := by
      rw [hfault, hread]
      rfl
    have hkept : ((bench.reset.scan source).2.readProgram parser).2.settings = bench.settings := by
      rw [readProgram_eq]
      exact hsettings
    have htree := ((bench.reset.scan source).2.readProgram parser).2.runTree_unset
      (.program parser.program.1.statements)
    rw [hkept, readProgram_unset, hscan] at htree
    rw [run_statements bench hkind, run_statements _ hkind,
      runStatements_of_clean _ hparser hclean, runStatements_of_clean _ hparser hclean]
    exact htree
  | @expression parser value hfault hparser hread =>
    have hkept : ((bench.reset.scan source).2.readExpression parser).2.settings =
        bench.settings := by
      rw [readExpression_of_ok _ hread]
      exact hsettings
    have htree := ((bench.reset.scan source).2.readExpression parser).2.runTree_unset
      (.expression value)
    rw [hkept, readExpression_unset, hscan] at htree
    rw [run_expression, run_expression, runExpression_of_ok _ hfault hparser hread,
      runExpression_of_ok _ hfault hparser hread]
    exact htree

end Unset

/-- All entries are of little importance or no records. -/
def Minor (bench : Workbench) : Prop := ∀ entry ∈ bench.entries, entry.Minor

namespace Minor

variable {bench : Workbench}

theorem add (h : bench.Minor) {more : List Entry} (hmore : ∀ entry ∈ more, entry.Minor) :
    ∀ entry ∈ bench.entries ++ more, entry.Minor :=
  List.forall_mem_append.mpr ⟨h, hmore⟩

theorem log (h : bench.Minor) {record : Record}
    (hrecord : record.level = .debug ∨ record.level = .info) : (bench.log record).Minor :=
  h.add (List.forall_mem_singleton.mpr hrecord)

theorem step (h : bench.Minor) (message : String) (fields : List (String × Option Text))
    (fault : Option Fault) : (bench.step message fields fault).Minor :=
  h.log (.inl rfl)

theorem say (h : bench.Minor) (text : Text) : (bench.say text).Minor :=
  h.add (List.forall_mem_singleton.mpr trivial)

theorem report (h : bench.Minor) (faults : List Fault) : (bench.report faults).Minor :=
  h.add (List.forall_mem_singleton.mpr trivial)

/-- Lines on the console are no entries. -/
theorem showLines (h : bench.Minor) (lines : List Text) : (bench.showLines lines).Minor := h

theorem scan (h : bench.Minor) (source : Text) : (bench.reset.scan source).2.Minor := by
  have hreset : bench.reset.Minor := h
  rw [scan_eq, showTokens_eq]
  exact ((hreset.report _).step _ _ _).showLines _

theorem readProgram (h : bench.Minor) (parser : Parser) : (bench.readProgram parser).2.Minor := by
  rw [readProgram_eq]
  exact (h.report _).step _ _ _

theorem readExpression (h : bench.Minor) (parser : Parser) :
    (bench.readExpression parser).2.Minor := by
  cases hread : parser.expression.1 with
  | error fault =>
    rw [readExpression_of_error _ hread]
    exact (h.report _).step _ _ _
  | ok value =>
    rw [readExpression_of_ok _ hread]
    exact (h.report _).step _ _ _

theorem settle {α : Type} (h : bench.Minor) (message : String)
    (run : Execution α × Interpreter) : (bench.settle message run).Minor := by
  have hnotices : ∀ entry ∈ run.1.notices.flatMap Notice.entries, entry.Minor := by
    intro entry hentry
    obtain ⟨notice, -, hmem⟩ := List.mem_flatMap.mp hentry
    exact notice.minor_of_mem_entries entry hmem
  rw [settle_eq]
  refine step ?_ message [] run.1.fault?
  exact h.add hnotices

/-- Evaluation adds notices and the record of a step. -/
theorem runTree (h : bench.Minor) (tree : Tree) : (bench.runTree tree).2.Minor := by
  cases tree with
  | program statements =>
    rw [Workbench.runTree, interpret, showTrees_statements]
    exact (h.showLines _).settle _ _
  | expression value =>
    rw [Workbench.runTree, evaluate, showTrees_expression]
    exact (h.showLines _).settle _ _

/-- A unit adds reports and records of little importance. -/
theorem run (h : bench.Minor) (kind : UnitKind) (source : Text) :
    (bench.run kind source).2.Minor := by
  have hscan := h.scan source
  by_cases hkind : kind = .expression
  · obtain ⟨parser, hparser, -⟩ := Scan.ofSource_closed {} source
    rw [hkind, run_expression]
    cases hfault : (Scan.ofSource source).fault? with
    | some fault =>
      rw [runExpression, hfault]
      exact hscan
    | none =>
      cases hread : parser.expression.1 with
      | error fault =>
        rw [runExpression_of_error _ hfault hparser hread]
        exact hscan.readExpression parser
      | ok value =>
        rw [runExpression_of_ok _ hfault hparser hread]
        exact (hscan.readExpression parser).runTree (.expression value)
  · obtain ⟨parser, hparser, -⟩ := Scan.ofSource_closed kind.options source
    rw [run_statements _ hkind]
    cases hfault : Fault.join [(Scan.ofSource source).fault?, parser.program.1.fault?] with
    | some fault =>
      rw [runStatements_of_fault _ hparser hfault]
      exact hscan.readProgram parser
    | none =>
      rw [runStatements_of_clean _ hparser hfault]
      exact (hscan.readProgram parser).runTree (.program parser.program.1.statements)

theorem logFailure (h : bench.Minor) (fault : Option Fault) : (bench.logFailure fault).Minor := by
  unfold Workbench.logFailure
  split
  · exact h
  · split <;> exact h.log (.inr rfl)

theorem finish (h : bench.Minor) (kind : UnitKind) (outcome : UnitOutcome) :
    (bench.finish kind outcome).Minor := by
  have hlog := h.logFailure outcome.fault
  unfold Workbench.finish echo
  split
  · split
    · exact hlog
    · exact hlog.showLines _
  · exact hlog

theorem conclude (h : bench.Minor) (fault : Option Fault) : (bench.conclude fault).2.Minor := by
  unfold Workbench.conclude
  split
  · exact h
  · split
    · exact h
    · split
      · exact h.say _
      · exact h

/-- A unit that is run alone adds reports and records of little importance. -/
theorem runSource (h : bench.Minor) (kind : UnitKind) (source : Text) :
    (bench.runSource kind source).2.Minor := by
  rw [runSource_eq]
  exact ((h.run kind source).finish kind _).conclude _

end Minor

/-- At a quiet level the stream shows what it holds beside records, whenever it is shown. -/
theorem Minor.shown_eq {bench : Workbench} (h : bench.Minor) {level : LogLevel}
    (hquiet : level.Quiet) (time : Text) :
    bench.shown level time = bench.entries.flatMap Entry.unlogged := by
  rw [shown, List.flatMap_def, List.flatMap_def]
  exact congrArg List.flatten
    (List.map_congr_left fun entry hentry => (h entry hentry).text_eq hquiet time)

end Workbench

namespace App

end App

end Lox
