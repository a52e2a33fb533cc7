import Lox.Proofs.Command.Independence
import Lox.Proofs.Source.LineBreak
import Lox.Proofs.Text.Utf8

/-!
# Evaluating and printing an expression

An expression is evaluated by itself, or as part of a statement that prints it. The first goes
through reading and evaluating one expression and the echo of its result, the second through reading
and executing statements. Both end alike and report the same fault. They also write the same value,
with one exception: the echo leaves out a result without characters, which only the empty string
has.
-/

namespace Lox

/-- A natural number has digits. -/
theorem Text.ofNat_ne_nil (n : Nat) : Text.ofNat n ≠ [] := Nat.toDigits_ne_nil

/-- A decimal has digits before its point. -/
theorem Decimal.positional_ne_nil (d : Decimal) : d.positional ≠ [] := by
  have hwhole := Text.ofNat_ne_nil (d.coefficient / Nat.pow 10 d.places)
  unfold positional
  split
  · exact hwhole
  · exact List.append_ne_nil_of_left_ne_nil hwhole _

namespace Value

/-- A printed number has characters. -/
theorem layout_text_ne_nil (x : Float) : layout.text x ≠ [] := by
  have hdecimal : ∀ d, layout.decimal d = d.positional := fun d => if_neg Bool.false_ne_true
  unfold Layout.text
  dsimp only
  split
  · exact List.cons_ne_nil _ _
  · split
    · split <;> exact List.cons_ne_nil _ _
    · split
      · exact List.cons_ne_nil _ _
      · rw [hdecimal]
        exact Decimal.positional_ne_nil _

/-- Only the empty string is printed without any character. -/
theorem textOf_eq_nil_iff (value : Option Value) :
    textOf value = [] ↔ value = some (.string []) := by
  cases value with
  | none => exact iff_of_false (List.cons_ne_nil _ _) nofun
  | some value =>
    cases value with
    | nil => exact iff_of_false (List.cons_ne_nil _ _) nofun
    | bool b => cases b <;> exact iff_of_false (List.cons_ne_nil _ _) nofun
    | number x => exact iff_of_false (layout_text_ne_nil x) nofun
    | string s => simp [textOf, text]

end Value

/-- The source that prints the expression of a source. The expression is closed on a line of its
own, as it may end with a comment. -/
def printing (source : Text) : Text := "print ".toList ++ source ++ "\n;".toList

/-- The bytes of a script that prints the expression of the given bytes. -/
def printingBytes (bytes : List UInt8) : List UInt8 :=
  Utf8.encode "print ".toList ++ bytes ++ Utf8.encode "\n;".toList

/-- A script that prints an expression has the text of the expression in it, whatever its bytes
are. -/
theorem decode_printingBytes (bytes : List UInt8) :
    Utf8.decode (printingBytes bytes) = printing (Utf8.decode bytes) := by
  have hbytes : printingBytes bytes =
      112 :: 114 :: 105 :: 110 :: 116 :: 32 :: (bytes ++ 10 :: [59]) := rfl
  rw [hbytes, Utf8.decode_cons_of_lt (by decide), Utf8.decode_cons_of_lt (by decide),
    Utf8.decode_cons_of_lt (by decide), Utf8.decode_cons_of_lt (by decide),
    Utf8.decode_cons_of_lt (by decide), Utf8.decode_cons_of_lt (by decide),
    Utf8.decode_append_cons (by decide)]
  rfl

/-- The word for printing and the blank after it stand before the segments of what follows. -/
theorem segments_print (source : Text) :
    segments ("print ".toList ++ source) =
      .lexeme (.keyword .printWord) .none "print".toList :: .blank ' ' :: segments source := by
  have htake : ("rint ".toList ++ source).takeWhile Segment.continuesWord = "rint".toList :=
    takeWhile_append_cons (by decide) "rint".toList source
  have hfirst : Segment.first 'p' ("rint ".toList ++ source) =
      .lexeme (.keyword .printWord) .none "print".toList := by
    rw [Segment.first_of_startsWord (by decide), Segment.word, htake]
    exact congrArg (Segment.lexeme · .none "print".toList) (Segment.wordKind_spelling .printWord)
  have hblank : segments (' ' :: source) = .blank ' ' :: segments source := by
    rw [segments]
    rfl
  rw [← hblank, show "print ".toList ++ source = 'p' :: ("rint ".toList ++ source) from rfl,
    segments, hfirst]
  rfl

/-- The segments of a source that prints an expression: those of the expression are on the lines
that they are on alone. -/
theorem located_printing {source : Text} (h : (Scan.ofSource source).faults = []) :
    Segment.located 1 (segments (printing source)) =
      (.lexeme (.keyword .printWord) .none "print".toList, 1) :: (.blank ' ', 1) ::
        (Segment.located 1 (segments source) ++
          [(.blank '\n', 1 + source.lineFeeds + 1),
            (.lexeme .semicolon .none [';'], 1 + source.lineFeeds + 1)]) := by
  have hclosing : segments [';'] = [.lexeme .semicolon .none [';']] := by
    rw [segments, List.drop_nil, segments]
    rfl
  have hlines := located_append_lineFeed (Scan.unterminated_not_mem h) 1 [';']
  rw [hclosing] at hlines
  have hprinting : printing source = "print ".toList ++ (source ++ '\n' :: [';']) :=
    List.append_assoc _ _ _
  rw [hprinting, segments_print]
  exact congrArg (fun pieces =>
    (Segment.lexeme (.keyword .printWord) .none "print".toList, 1) ::
      (Segment.blank ' ', 1) :: pieces) hlines

namespace Scan

/-- The tokens of a source before its end. -/
def body (source : Text) : List Token :=
  (Segment.located 1 (segments source)).filterMap Segment.token?

/-- The word for printing, in front of a source. -/
def printToken : Token := ⟨.keyword .printWord, "print".toList, .none, 1⟩

/-- The semicolon on the line after a source. -/
def closingToken (source : Text) : Token :=
  ⟨.semicolon, [';'], .none, (1 + source.lineFeeds + 1 : Nat)⟩

/-- The tokens of a source that prints an expression are those of the expression, between the word
for printing and a semicolon. -/
theorem body_printing {source : Text} (h : (ofSource source).faults = []) :
    body (printing source) = printToken :: body source ++ [closingToken source] := by
  rw [body, located_printing h]
  change printToken :: List.filterMap Segment.token? (_ ++ _) = _
  rw [List.filterMap_append]
  rfl

/-- A source that prints an expression has no more faults than the expression. -/
theorem faults_printing {source : Text} (h : (ofSource source).faults = []) :
    (ofSource (printing source)).faults = [] := by
  rw [ofSource, located_printing h]
  change List.filterMap Segment.fault? (_ ++ _) = _
  rw [List.filterMap_append]
  exact List.append_eq_nil_iff.mpr ⟨h, rfl⟩

/-- A scan without faults has no fault. -/
theorem fault?_eq_none_iff (scan : Scan) : scan.fault? = none ↔ scan.faults = [] := by
  constructor
  · exact fun h => List.map_eq_nil_iff.mp (Fault.eq_nil_of_join h)
  · intro h
    rw [fault?, reports, h]
    rfl

end Scan

namespace UnitKind

/-- A source is read as an expression exactly if it has no faults and its tokens derive the
expression, nested no deeper than allowed. -/
theorem reads_expression_iff (source : Text) (tree : Expr) :
    Reads source .expression (.expression tree) ↔
      (Scan.ofSource source).faults = [] ∧ Derives .expression tree (Scan.body source) ∧
        tree.nesting ≤ 256 := by
  obtain ⟨parser, hparser, -⟩ := Scan.ofSource_closed {} source
  have hread : parser.expression.1 = .ok tree ↔
      Derives .expression tree (Scan.body source) ∧ tree.nesting ≤ 256 := by
    have hmap : (Parser.ofTokens {} (Scan.ofSource source).tokens).map
        (fun parser => parser.expression.1) = .ok (.ok tree) ↔ _ :=
      Parser.ofTokens_expression_iff {} rfl (fun token => Scan.isEnd_of_mem) tree
    rw [hparser] at hmap
    exact ⟨fun h => hmap.mp (congrArg Except.ok h), fun h => Except.ok.inj (hmap.mpr h)⟩
  constructor
  · intro h
    cases h with
    | @expression other value hscan hother hexpression =>
      cases hparser.symm.trans hother
      exact ⟨(Scan.fault?_eq_none_iff _).mp hscan, hread.mp hexpression⟩
  · rintro ⟨hfaults, hderives⟩
    exact .expression ((Scan.fault?_eq_none_iff _).mpr hfaults) hparser (hread.mpr hderives)

/-- A source is read as a script exactly if it has no faults and its tokens derive the statements,
nested no deeper than allowed. -/
theorem reads_script_iff (source : Text) (statements : List Stmt) :
    Reads source .script (.program statements) ↔
      (Scan.ofSource source).faults = [] ∧
        DerivesProgram false statements (Scan.body source) ∧
        ∀ statement ∈ statements, statement.nesting ≤ 256 := by
  obtain ⟨parser, hparser, -⟩ := Scan.ofSource_closed script.options source
  have hread : parser.program.1 = ⟨statements, []⟩ ↔
      DerivesProgram false statements (Scan.body source) ∧
        ∀ statement ∈ statements, statement.nesting ≤ 256 := by
    have hmap : (Parser.ofTokens script.options (Scan.ofSource source).tokens).map
        (fun parser => parser.program.1) = .ok ⟨statements, []⟩ ↔ _ :=
      Parser.ofTokens_program_iff script.options rfl (fun token => Scan.isEnd_of_mem)
        statements
    rw [hparser] at hmap
    exact ⟨fun h => hmap.mp (congrArg Except.ok h), fun h => Except.ok.inj (hmap.mpr h)⟩
  constructor
  · intro h
    cases h with
    | @program kind other hkind hscan hother hprogram =>
      cases hparser.symm.trans hother
      refine ⟨(Scan.fault?_eq_none_iff _).mp hscan, hread.mp ?_⟩
      rw [← List.map_eq_nil_iff.mp (Fault.eq_nil_of_join hprogram)]
  · rintro ⟨hfaults, hderives⟩
    have hprogram := hread.mpr hderives
    have hreads := Reads.program (by decide) ((Scan.fault?_eq_none_iff _).mpr hfaults) hparser
      (by rw [hprogram]; rfl)
    rw [hprogram] at hreads
    exact hreads

/-- A source that is read as an expression is read as a statement that prints it, once the word for
printing stands before it and a semicolon after it. -/
theorem Reads.printing {source : Text} {tree : Expr}
    (h : Reads source .expression (.expression tree)) :
    Reads (printing source) .script (.program [.print tree]) := by
  obtain ⟨hfaults, hderives, hnesting⟩ := (reads_expression_iff source tree).mp h
  refine (reads_script_iff _ _).mpr ⟨Scan.faults_printing hfaults, ?_, ?_⟩
  · rw [Scan.body_printing hfaults]
    exact .closed (.print rfl hderives) rfl .empty
  · intro statement hmem
    rw [List.mem_singleton.mp hmem]
    exact hnesting

/-- A string between quotes is read as itself. -/
theorem reads_string {body : Text} (h : '"' ∉ body) :
    Reads ('"' :: (body ++ ['"'])) .expression (.expression (.literal (some (.string body)))) := by
  let text := '"' :: body ++ ['"']
  have hfirst : Segment.first '"' (body ++ ['"']) = .lexeme .string (.string body) text :=
    Segment.string_closed h
  have hdrop : (body ++ ['"']).drop (text.length - 1) = [] :=
    drop_length_pred (List.cons_ne_nil _ _) (List.append_nil text).symm
  have hsegments : segments ('"' :: (body ++ ['"'])) = [.lexeme .string (.string body) text] := by
    rw [segments, hfirst]
    dsimp only [Segment.text]
    rw [hdrop, segments]
  refine (reads_expression_iff _ _).mpr ⟨?_, ?_, Nat.zero_le _⟩
  · rw [Scan.ofSource, hsegments]
    rfl
  · rw [Scan.body, hsegments]
    exact .operand (.operand (.operand (.operand (.primary (.literal rfl)))))

end UnitKind

namespace Workbench

/-- Concluding a unit writes nothing to the console. -/
theorem conclude_console (bench : Workbench) (fault : Option Fault) :
    (bench.conclude fault).2.console = bench.console := by
  unfold conclude
  split
  · rfl
  · split
    · rfl
    · split <;> rfl

/-- A workbench takes over the console of an execution. -/
theorem settle_console {α : Type} (bench : Workbench) (message : String)
    (run : Execution α × Interpreter) : (bench.settle message run).console = run.1.console := by
  rw [settle_eq]
  rfl

/-- Statements leave on the console what their execution writes after the tokens and the trees. -/
theorem runSource_console_program (bench : Workbench) {source : Text} {statements : List Stmt}
    (h : UnitKind.Reads source .script (.program statements)) :
    (bench.runSource .script source).2.console =
      (Execution.program (bench.settings.consoleFor source (.program statements) bench.console)
        statements).console := by
  obtain ⟨mid, hrun, hsettings, hconsole, -⟩ := bench.run_of_reads h
  rw [runSource_eq, conclude_console, hrun]
  refine (logFailure_console _ _).trans ?_
  rw [runTree, interpret, showTrees_statements, hsettings, settle_console, showLines, hconsole,
    ← List.foldl_append]
  rfl

/-- A result is written unless it has no characters. -/
theorem finish_expression_console (bench : Workbench) (outcome : UnitOutcome) :
    (bench.finish .expression outcome).console =
      if outcome.text = [] then bench.console else bench.console.writeLine outcome.text := by
  have hlog := logFailure_console bench outcome.fault
  change ((bench.logFailure outcome.fault).echo outcome.text).console = _
  unfold echo
  split
  · exact hlog
  · exact congrArg (Console.writeLine · outcome.text) hlog

/-- An expression leaves on the console its result after the tokens and the tree, if the result has
any characters. -/
theorem runSource_console_expression (bench : Workbench) {source : Text} {tree : Expr}
    (h : UnitKind.Reads source .expression (.expression tree)) :
    let execution := Execution.expression
      (bench.settings.consoleFor source (.expression tree) bench.console) tree
    let text := (UnitOutcome.ofExecution Value.textOf execution).text
    (bench.runSource .expression source).2.console =
      if text = [] then execution.console else execution.console.writeLine text := by
  obtain ⟨mid, hrun, hsettings, hconsole, -⟩ := bench.run_of_reads h
  rw [runSource_eq, conclude_console, finish_expression_console, hrun, runTree, evaluate,
    showTrees_expression, hsettings, settle_console, Interpreter.evaluate_fst, showLines, hconsole,
    ← List.foldl_append]
  rfl

end Workbench

namespace Execution

variable (writes : List Text) {tree : Expr}

/-- An expression with a value is evaluated without a trace. -/
theorem expression_of_ok {value : Option Value} (heval : tree.eval .empty = .ok value) :
    expression (.working writes) tree = ⟨.ok value, [], .working writes⟩ := by
  simp only [expression, heval]
  rfl

/-- An expression with a fault ends its evaluation with it. -/
theorem expression_of_error {fault : RuntimeFault} (heval : tree.eval .empty = .error fault) :
    expression (.working writes) tree =
      ⟨.error (.runtime fault), [.failed (.runtime fault)], .working writes⟩ := by
  simp only [expression, heval]
  rfl

/-- Printing an expression with a value writes the value on a line. -/
theorem program_print_of_ok {value : Option Value} (heval : tree.eval .empty = .ok value) :
    program (.working writes) [.print tree] =
      ⟨.ok [], [.executed 0 .empty], .working (writes ++ [Text.line (Value.textOf value)])⟩ := by
  simp only [program, statementsFrom, Stmt.execute, heval]
  rfl

/-- Printing an expression with a fault writes nothing and ends with the fault. -/
theorem program_print_of_error {fault : RuntimeFault} (heval : tree.eval .empty = .error fault) :
    program (.working writes) [.print tree] =
      ⟨.error (.runtime fault), [.failed (.runtime fault)], .working writes⟩ := by
  simp only [program, statementsFrom, Stmt.execute, heval]
  rfl

end Execution

namespace App

/-- The arguments of a call that evaluates an expression. -/
theorem ofArguments_eval (source : Text) :
    Request.ofArguments ["-e".toList, source] = .ok (.run ⟨.expression source, {}, .warn⟩) :=
  rfl

/-- The arguments of a call that runs a script. -/
theorem ofArguments_script {path : Text} (h : path.head? ≠ some '-') :
    Request.ofArguments [path] = .ok (.run ⟨.script path, {}, .warn⟩) := by
  cases path with
  | nil => rfl
  | cons c rest =>
    have hc : c ≠ '-' := fun heq => h (by rw [heq]; rfl)
    have hend : ¬ (c :: rest) = "--".toList := fun heq => hc (List.cons.inj heq).1
    have hargument : Flags.argument {} (c :: rest) = .ok ({ arguments := [c :: rest] }, none) := by
      simp [Flags.argument, hc]
    rw [Request.ofArguments, Flags.parse, if_neg hend, hargument]
    rfl

/-- A call for a unit that is read, at a quiet level: the code tells how its evaluation ended, and
the fault of the evaluation is the only error. -/
theorem call_eq_of_reads (app : App) (time : Text) {arguments : List Text} {plan : Plan}
    {kind : UnitKind} {source : Text} {tree : Tree}
    (hrequest : Request.ofArguments arguments = .ok (.run plan))
    (hruns : app.Runs plan.task kind source) (hquiet : plan.level.Quiet)
    (h : kind.Reads source tree) :
    let fault := tree.fault? (plan.settings.consoleFor source tree app.console)
    (app.call time arguments).1 =
      ⟨if fault.isSome then .software else .success,
        ((app.workbench plan.settings).runSource kind source).2.console.outputFrom
          app.console.writes.length,
        reportLines (fault.map RunFault.toFault).toList⟩ := by
  intro fault
  obtain ⟨hcode, hshown⟩ := (app.workbench plan.settings).runSource_of_reads h
  rw [call_of_run hrequest, hruns.carryOut_eq, hcode, hshown plan.level time hquiet]
  rfl

/-- Nothing is shown beside the output of a program unless that is asked for. -/
theorem consoleFor_default (source : Text) (tree : Tree) (console : Console) :
    Settings.consoleFor {} source tree console = console := by
  cases tree <;> rfl

section Units

variable {app : App} {writes : List Text} (hconsole : app.console = .working writes) (time : Text)
  {source : Text} {tree : Expr} (h : UnitKind.Reads source .expression (.expression tree))

include hconsole h

/-- A call that evaluates an expression answers how its evaluation ended and writes its result,
unless that has no characters. -/
theorem call_eval {execution : Execution (Option Value)}
    (hexecution : Execution.expression (.working writes) tree = execution) :
    let text := (UnitOutcome.ofExecution Value.textOf execution).text
    (app.call time ["-e".toList, source]).1 =
      ⟨if execution.runFault?.isSome then .software else .success,
        (if text = [] then execution.console
          else execution.console.writeLine text).outputFrom writes.length,
        reportLines (execution.runFault?.map RunFault.toFault).toList⟩ := by
  have hcall :=
    call_eq_of_reads app time (ofArguments_eval source) (.expression source) (.inl rfl) h
  have hwritten := (app.workbench {}).runSource_console_expression h
  simp only [consoleFor_default, workbench, hconsole, Tree.fault?, hexecution] at hcall hwritten
  rw [hcall, hwritten]
  rfl

/-- A call that evaluates an expression with a value writes the value, unless it has no
characters. -/
theorem call_eval_of_ok {value : Option Value} (heval : tree.eval .empty = .ok value) :
    (app.call time ["-e".toList, source]).1 =
      ⟨.success, if Value.textOf value = [] then [] else Text.line (Value.textOf value), []⟩ := by
  refine (call_eval hconsole time h (Execution.expression_of_ok writes heval)).trans ?_
  change Call.mk .success ((if Value.textOf value = [] then Console.working writes
    else (Console.working writes).writeLine (Value.textOf value)).outputFrom writes.length) [] = _
  split
  · exact congrArg (Call.mk .success · []) (Console.outputFrom_working_self writes)
  · exact congrArg (Call.mk .success · [])
      ((Console.outputFrom_working writes [Text.line (Value.textOf value)]).trans
        (List.append_nil _))

/-- A call that evaluates an expression with a fault writes the fault as an error. -/
theorem call_eval_of_error {fault : RuntimeFault} (heval : tree.eval .empty = .error fault) :
    (app.call time ["-e".toList, source]).1 = ⟨.software, [], reportLines [.runtime fault]⟩ := by
  refine (call_eval hconsole time h (Execution.expression_of_error writes heval)).trans ?_
  exact congrArg (Call.mk .software · (reportLines [.runtime fault]))
    (Console.outputFrom_working_self writes)

variable {path : Text} (hpath : path.head? ≠ some '-') {bytes : List UInt8}
  (hfile : app.files.lookup path = some bytes) (hbytes : Utf8.decode bytes = printing source)

include hpath hfile hbytes

/-- A call that runs a script that prints an expression answers how its execution ended. -/
theorem call_print {execution : Execution Text}
    (hexecution : Execution.program (.working writes) [.print tree] = execution) :
    (app.call time [path]).1 =
      ⟨if execution.runFault?.isSome then .software else .success,
        execution.console.outputFrom writes.length,
        reportLines (execution.runFault?.map RunFault.toFault).toList⟩ := by
  have hruns : app.Runs (.script path) .script (printing source) := hbytes ▸ .script hfile
  have hcall := call_eq_of_reads app time (ofArguments_script hpath) hruns (.inl rfl) h.printing
  have hwritten := (app.workbench {}).runSource_console_program h.printing
  simp only [consoleFor_default, workbench, hconsole, Tree.fault?, hexecution] at hcall hwritten
  rw [hcall, hwritten]
  rfl

/-- A call that runs a script that prints an expression with a value writes the value. -/
theorem call_print_of_ok {value : Option Value} (heval : tree.eval .empty = .ok value) :
    (app.call time [path]).1 = ⟨.success, Text.line (Value.textOf value), []⟩ := by
  refine (call_print hconsole time h hpath hfile hbytes
    (Execution.program_print_of_ok writes heval)).trans ?_
  exact congrArg (Call.mk .success · [])
    ((Console.outputFrom_working writes [Text.line (Value.textOf value)]).trans
      (List.append_nil _))

/-- A call that runs a script that prints an expression with a fault writes the fault as an
error. -/
theorem call_print_of_error {fault : RuntimeFault} (heval : tree.eval .empty = .error fault) :
    (app.call time [path]).1 = ⟨.software, [], reportLines [.runtime fault]⟩ := by
  refine (call_print hconsole time h hpath hfile hbytes
    (Execution.program_print_of_error writes heval)).trans ?_
  exact congrArg (Call.mk .software · (reportLines [.runtime fault]))
    (Console.outputFrom_working_self writes)

end Units

/-- The flag that evaluates an expression and a script that prints it agree, whatever the bytes of
the expression are, on a console that takes every write and never cancels: they answer with the same
code and write the same errors. They write the same output exactly if the value is not the empty
string. The flag then writes the value on a line of its own; for the empty string it writes nothing,
where the script writes an empty line. -/
theorem call_eval_agrees_with_print (app : App) (time : Text) {path : Text} {bytes : List UInt8}
    {tree : Expr} (hpath : path.head? ≠ some '-')
    (hfile : app.files.lookup path = some (printingBytes bytes))
    (hfails : app.console.failAfter = none) (hcancels : app.console.cancelAfter = none)
    (hreads : UnitKind.Reads (Utf8.decode bytes) .expression (.expression tree)) :
    let evaluated := (app.call time ["-e".toList, Utf8.decode bytes]).1
    let printed := (app.call time [path]).1
    evaluated.code = printed.code ∧ evaluated.errors = printed.errors ∧
    (evaluated.output = printed.output ↔ tree.eval .empty ≠ .ok (some (.string []))) ∧
    (∀ value, tree.eval .empty = .ok value → value ≠ some (.string []) →
      evaluated.output = Text.line (Value.textOf value)) ∧
    (tree.eval .empty = .ok (some (.string [])) →
      evaluated.output = [] ∧ printed.output = ['\n']) := by
  intro evaluated printed
  have hconsole := Console.eq_working hfails hcancels
  have hbytes := decode_printingBytes bytes
  cases heval : tree.eval .empty with
  | error fault =>
    have hevaluated : evaluated = _ := call_eval_of_error hconsole time hreads heval
    have hprinted : printed = _ :=
      call_print_of_error hconsole time hreads hpath hfile hbytes heval
    rw [hevaluated, hprinted]
    exact ⟨rfl, rfl, iff_of_true rfl nofun, nofun, nofun⟩
  | ok value =>
    have hevaluated : evaluated = _ := call_eval_of_ok hconsole time hreads heval
    have hprinted : printed = _ := call_print_of_ok hconsole time hreads hpath hfile hbytes heval
    rw [hevaluated, hprinted]
    -- The echo asks for the text of the result, and only the empty string has none.
    by_cases hempty : value = some (.string [])
    · subst hempty
      exact ⟨rfl, rfl, iff_of_false nofun fun hne => hne rfl,
        fun other hother hne => absurd (Except.ok.inj hother).symm hne, fun _ => ⟨rfl, rfl⟩⟩
    · have htext : ¬ Value.textOf value = [] := mt (Value.textOf_eq_nil_iff value).mp hempty
      rw [if_neg htext]
      exact ⟨rfl, rfl, iff_of_true rfl fun heq => hempty (Except.ok.inj heq),
        fun other hother _ => by rw [Except.ok.inj hother],
        fun heq => absurd (Except.ok.inj heq) hempty⟩

/-- A string with a line feed in it is written alike by the flag and by a script. -/
theorem call_eval_agrees_with_print_lines :
    let bytes : List UInt8 := [34, 97, 10, 98, 34]
    let app : App := { files := [(['a'], printingBytes bytes)] }
    UnitKind.Reads (Utf8.decode bytes) .expression
        (.expression (.literal (some (.string ['a', '\n', 'b'])))) ∧
      (app.call [] ["-e".toList, Utf8.decode bytes]).1.output = ['a', '\n', 'b', '\n'] ∧
      (app.call [] [['a']]).1.output = ['a', '\n', 'b', '\n'] := by
  intro bytes app
  have hdecode : Utf8.decode bytes = '"' :: (['a', '\n', 'b'] ++ ['"']) := by decide
  have hreads : UnitKind.Reads (Utf8.decode bytes) .expression
      (.expression (.literal (some (.string ['a', '\n', 'b'])))) := by
    rw [hdecode]
    exact UnitKind.reads_string (by decide)
  have hfile : app.files.lookup ['a'] = some (printingBytes bytes) := rfl
  obtain ⟨-, -, hsame, hvalue, -⟩ :=
    call_eval_agrees_with_print app [] (by decide) hfile rfl rfl hreads
  have hevaluated := hvalue _ rfl nofun
  exact ⟨hreads, hevaluated, (hsame.mpr nofun).symm.trans hevaluated⟩

/-- The empty string is not written by the flag, while a script that prints it writes a line. -/
theorem call_eval_omits_empty_string :
    let bytes : List UInt8 := [34, 34]
    let app : App := { files := [(['a'], printingBytes bytes)] }
    UnitKind.Reads (Utf8.decode bytes) .expression (.expression (.literal (some (.string [])))) ∧
      (app.call [] ["-e".toList, Utf8.decode bytes]).1.output = [] ∧
      (app.call [] [['a']]).1.output = ['\n'] := by
  intro bytes app
  have hdecode : Utf8.decode bytes = '"' :: ([] ++ ['"']) := by decide
  have hreads : UnitKind.Reads (Utf8.decode bytes) .expression
      (.expression (.literal (some (.string [])))) := by
    rw [hdecode]
    exact UnitKind.reads_string List.not_mem_nil
  have hconsole : app.console = .working [] := rfl
  have hfile : app.files.lookup ['a'] = some (printingBytes bytes) := rfl
  refine ⟨hreads, ?_, ?_⟩
  · rw [call_eval_of_ok hconsole [] hreads rfl]
    rfl
  · rw [call_print_of_ok hconsole [] hreads (by decide) hfile (decode_printingBytes bytes) rfl]
    rfl

end App

end Lox
