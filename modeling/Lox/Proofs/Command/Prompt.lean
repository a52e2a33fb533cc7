import Lox.Proofs.Command.Independence

/-!
# The lines of a prompt

A prompt runs the lines of its input one by one on one workbench. Every line leaves what it would
leave on a workbench of its own, so what a prompt writes is what its lines write when each of them
is the only line of a prompt. Faults of a line do not end the prompt: a blank line does, the end of
the input does, and a failure to read.
-/

namespace Lox

namespace Lines

/-- A line that ends a prompt: it cannot be read, or it is blank. -/
def ends (line : List UInt8) : Bool := isTooLong line || (text line).isBlank

/-- The message of the failure that ends the reading of lines, if one does. Lines are read up to a
blank one. A line that is too long cannot be read, and after the last line comes what stands at the
end of the input. -/
def failure? (inputEnd : InputEnd) (lines : List (List UInt8)) : Option Text :=
  match lines.find? ends with
  | some line => if isTooLong line then some "bufio.Scanner: token too long".toList else none
  | none =>
    match inputEnd with
    | .failure message => some message
    | .endOfInput | .interrupt => none

/-- Lines have no line feeds. -/
theorem lineFeed_not_mem {input line : List UInt8} (h : line ∈ split input) : 10 ∉ line := by
  fun_induction split input generalizing line with
  | case1 => cases h
  | case2 rest ih =>
    rcases List.mem_cons.mp h with rfl | h
    · exact List.not_mem_nil
    · exact ih h
  | case3 byte rest hbyte hsplit ih =>
    rw [List.mem_singleton.mp h, List.mem_singleton]
    exact Ne.symm hbyte
  | case4 byte rest hbyte first lines hsplit ih =>
    rw [hsplit] at ih
    rcases List.mem_cons.mp h with rfl | h
    · have hfirst := ih List.mem_cons_self
      simp [hfirst, Ne.symm hbyte]
    · exact ih (List.mem_cons_of_mem first h)

/-- A line ends at its line feed. -/
theorem split_append_lineFeed {line : List UInt8} (h : 10 ∉ line) (rest : List UInt8) :
    split (line ++ 10 :: rest) = line :: split rest := by
  induction line with
  | nil => rfl
  | cons byte line ih =>
    have hbyte : ¬ byte = 10 := fun heq => h (heq ▸ List.mem_cons_self)
    have hline : 10 ∉ line := fun hmem => h (List.mem_cons_of_mem byte hmem)
    rw [List.cons_append, split, if_neg hbyte, ih hline]

/-- A line that does not end the prompt does not change whether reading fails. -/
theorem failure?_cons {line : List UInt8} (h : ends line = false) (inputEnd : InputEnd)
    (lines : List (List UInt8)) : failure? inputEnd (line :: lines) = failure? inputEnd lines := by
  unfold failure?
  rw [List.find?_cons, h]

end Lines

namespace Workbench

/-- What a line leaves on a new workbench. -/
def lineAlone (settings : Settings) (line : List UInt8) : Workbench :=
  ({ settings := settings } : Workbench).runLine (Lines.text line)

/-- A prompt leaves on a workbench what its lines leave on workbenches of their own, and the failure
to read if there is one. -/
theorem runLines_eq {bench : Workbench} {writes : List Text}
    (hconsole : bench.console = .working writes) (inputEnd : InputEnd)
    (lines : List (List UInt8)) :
    let read := lines.takeWhile fun line => !Lines.ends line
    let failure := Lines.failure? inputEnd lines
    (bench.runLines inputEnd lines).1 =
        (if failure.isSome then .inputFailed else .success) ∧
      (bench.runLines inputEnd lines).2.console = .working
        (writes ++ read.flatMap fun line => (lineAlone bench.settings line).console.writes) ∧
      (bench.runLines inputEnd lines).2.entries =
        bench.entries ++ (read.flatMap fun line => (lineAlone bench.settings line).entries) ++
          failure.toList.map Entry.line := by
  induction lines generalizing bench writes with
  | nil =>
    cases inputEnd <;> simp [runLines, endInput, Lines.failure?, say, hconsole]
  | cons line lines ih =>
    unfold runLines
    cases hlong : Lines.isTooLong line with
    | true =>
      have hends : Lines.ends line = true := by rw [Lines.ends, hlong, Bool.true_or]
      simp [Lines.failure?, say, hconsole, hends, hlong]
    | false =>
      cases hblank : (Lines.text line).isBlank with
      | true =>
        have hends : Lines.ends line = true := by rw [Lines.ends, hblank, Bool.or_true]
        simp [Lines.failure?, hconsole, hends, hlong]
      | false =>
        have hends : Lines.ends line = false := by rw [Lines.ends, hlong, hblank, Bool.or_false]
        -- All that came before this line is the past of its run, and what the run leaves has a
        -- working console again, from which the other lines go on.
        have hfollows := (Follows.start hconsole).runLine (Lines.text line)
        have hsettings : (bench.runLine (Lines.text line)).settings = bench.settings :=
          hfollows.settings
        have hentry : (bench.runLine (Lines.text line)).entries =
            bench.entries ++ (lineAlone bench.settings line).entries := hfollows.entries
        obtain ⟨more, halone, hused⟩ := hfollows.console
        have hmore : (lineAlone bench.settings line).console.writes = more := by
          rw [lineAlone, halone]
          rfl
        rw [hconsole] at hused
        obtain ⟨hcode, hwrites, hentries⟩ := ih hused
        rw [hsettings] at hwrites hentries
        simp only [Bool.false_eq_true, if_false, List.takeWhile_cons, hends, Bool.not_false,
          if_true, List.flatMap_cons, Lines.failure?_cons hends]
        refine ⟨hcode, ?_, ?_⟩
        · rw [hwrites, hmore, List.append_assoc]
          rfl
        · rw [hentries, hentry]
          simp only [List.append_assoc]

/-- At a quiet level a line shows the same at any time. -/
theorem shown_lineAlone {level : LogLevel} (hquiet : level.Quiet) (settings : Settings)
    (line : List UInt8) (time other : Text) :
    (lineAlone settings line).shown level time = (lineAlone settings line).shown level other := by
  have hreported : ∃ faults reports, Reported { settings := settings } faults reports
      (({ settings := settings } : Workbench).run .line (Lines.text line)).2 := by
    rcases UnitKind.rejects_or_reads .line (Lines.text line) with hrejects | ⟨tree, hreads⟩
    · obtain ⟨fault, faults, -, -, -, h⟩ := run_of_rejects { settings := settings } hrejects
      exact ⟨faults, [], h⟩
    · obtain ⟨mid, hrun, -, -, hmid⟩ := run_of_reads { settings := settings } hreads
      rw [hrun]
      exact ⟨[], _, (hmid.runTree tree).2⟩
  obtain ⟨faults, reports, h⟩ := hreported
  have hline := (h.logFailure (({ settings := settings } : Workbench).run .line
    (Lines.text line)).1.fault).echo (({ settings := settings } : Workbench).run .line
    (Lines.text line)).1.text
  rw [lineAlone, runLine_eq, hline.shown level time hquiet, hline.shown level other hquiet]
  rfl

end Workbench

namespace App

/-- What a call for a prompt answers, in terms of its lines. -/
theorem call_prompt (app : App) (time : Text) {arguments : List Text} {plan : Plan}
    (hrequest : Request.ofArguments arguments = .ok (.run plan)) (htask : plan.task = .prompt)
    (hquiet : plan.level.Quiet) {writes : List Text} (hconsole : app.console = .working writes) :
    let lines := Lines.split app.input
    let read := lines.takeWhile fun line => !Lines.ends line
    let failure := Lines.failure? app.inputEnd lines
    let alone := Workbench.lineAlone plan.settings
    (app.call time arguments).1 =
      ⟨if failure.isSome then .inputFailed else .success,
        read.flatMap fun line => (alone line).console.writes.flatten,
        (read.flatMap fun line => (alone line).shown plan.level time) ++
          failure.toList.flatMap Text.line⟩ := by
  intro lines read failure alone
  let record := Record.of .debug "prompt mode" [("reader", some "lines".toList)]
  let bench := (app.workbench plan.settings).log record
  have hcarry : app.carryOut plan = bench.runLines app.inputEnd lines := by
    rw [carryOut, htask]
    rfl
  obtain ⟨hcode, hwrites, hentries⟩ :=
    Workbench.runLines_eq (show bench.console = .working writes from hconsole) app.inputEnd lines
  have houtput : (bench.runLines app.inputEnd lines).2.console.outputFrom writes.length =
      read.flatMap fun line => (alone line).console.writes.flatten := by
    rw [hwrites, Console.outputFrom, Console.working, List.drop_left, List.flatMap_def,
      List.flatMap_def, List.flatten_flatten, List.map_map]
    rfl
  have hshown : (bench.runLines app.inputEnd lines).2.shown plan.level time =
      (read.flatMap fun line => (alone line).shown plan.level time) ++
        failure.toList.flatMap Text.line := by
    have hrecord : Entry.text plan.level time (.logged record) = [] :=
      Entry.text_logged hquiet time (.inl rfl)
    rw [Workbench.shown, hentries, List.flatMap_append, List.flatMap_append, List.flatMap_map,
      List.flatMap_assoc]
    change Entry.text plan.level time (.logged record) ++ [] ++ _ ++ _ = _
    rw [hrecord]
    rfl
  rw [call_of_run hrequest, hcarry, hcode, hshown, hconsole]
  rw [show (Console.working writes).writes.length = writes.length from rfl, houtput]

/-- A prompt of one line, run by a new app, answers what the line leaves. -/
theorem call_prompt_line {arguments : List Text} {plan : Plan}
    (hrequest : Request.ofArguments arguments = .ok (.run plan)) (htask : plan.task = .prompt)
    (hquiet : plan.level.Quiet) (time : Text) {line : List UInt8} (hline : 10 ∉ line)
    (hends : Lines.ends line = false) :
    (({ input := line ++ [10] } : App).call time arguments).1 =
      ⟨.success, (Workbench.lineAlone plan.settings line).console.writes.flatten,
        (Workbench.lineAlone plan.settings line).shown plan.level time⟩ := by
  have hsplit : Lines.split (line ++ [10]) = [line] := Lines.split_append_lineFeed hline []
  have hread : [line].takeWhile (fun line => !Lines.ends line) = [line] := by
    rw [List.takeWhile_cons, hends]
    rfl
  have hfailure : Lines.failure? .endOfInput [line] = none := Lines.failure?_cons hends _ []
  rw [call_prompt { input := line ++ [10] } time hrequest htask hquiet
    (Console.eq_working rfl rfl)]
  dsimp only
  rw [hsplit, hread, hfailure, List.flatMap_singleton, List.flatMap_singleton]
  exact congrArg _ (List.append_nil _)

/-- The lines of a prompt are independent of each other, and faults in them do not end it. On a
working console and at a level that leaves out all records, a prompt writes, one after the other,
what each line writes that is the only line of a prompt of a new app, up to the first blank line. It
ends with code 0, unless the next line or what stands at the end of the input cannot be read: then
the failure is written last and the code is 74. -/
theorem call_prompt_concatenates (app : App) (time moment : Text) {arguments : List Text}
    {plan : Plan} (hrequest : Request.ofArguments arguments = .ok (.run plan))
    (htask : plan.task = .prompt) (hquiet : plan.level.Quiet)
    (hfails : app.console.failAfter = none) (hcancels : app.console.cancelAfter = none) :
    let call := (app.call time arguments).1
    let lines := Lines.split app.input
    let read := lines.takeWhile fun line => !Lines.ends line
    let failure := Lines.failure? app.inputEnd lines
    let alone := fun line =>
      (({ input := line ++ [10] } : App).call moment arguments).1
    call.output = (read.flatMap fun line => (alone line).output) ∧
    call.errors = (read.flatMap fun line => (alone line).errors) ++
      failure.toList.flatMap Text.line ∧
    call.code.number = (if failure.isSome then 74 else 0) := by
  intro call lines read failure alone
  have hcall := app.call_prompt time hrequest htask hquiet (Console.eq_working hfails hcancels)
  have halone : ∀ line ∈ read, alone line =
      ⟨.success, (Workbench.lineAlone plan.settings line).console.writes.flatten,
        (Workbench.lineAlone plan.settings line).shown plan.level time⟩ := by
    intro line hline
    have hends : Lines.ends line = false := by
      simpa using List.all_eq_true.mp List.all_takeWhile line hline
    have hmem : line ∈ lines := (List.takeWhile_sublist _).subset hline
    rw [Workbench.shown_lineAlone hquiet plan.settings line time moment]
    exact call_prompt_line hrequest htask hquiet moment (Lines.lineFeed_not_mem hmem) hends
  refine ⟨?_, ?_, ?_⟩
  · refine (congrArg Call.output hcall).trans ?_
    rw [List.flatMap_def, List.flatMap_def]
    exact congrArg List.flatten (List.map_congr_left fun line hline => by rw [halone line hline])
  · refine (congrArg Call.errors hcall).trans ?_
    rw [List.flatMap_def, List.flatMap_def]
    exact congrArg (List.flatten · ++ failure.toList.flatMap Text.line)
      (List.map_congr_left fun line hline => by rw [halone line hline])
  · refine (congrArg (fun call => call.code.number) hcall).trans ?_
    change ExitCode.number (if failure.isSome then .inputFailed else .success) = _
    split <;> rfl

/-- A prompt goes on after a line with a stray character, and ends with the failure to read that
comes after its second line. -/
theorem call_prompt_concatenates_failure :
    let app : App := { input := [35, 10, 110, 105, 108], inputEnd := .failure ['e'] }
    let plan : Plan := ⟨.prompt, {}, .warn⟩
    let first := (({ input := [35, 10] } : App).call [] []).1
    let second := (({ input := [110, 105, 108, 10] } : App).call [] []).1
    Request.ofArguments [] = .ok (.run plan) ∧ plan.task = .prompt ∧ plan.level.Quiet ∧
      app.console.failAfter = none ∧ app.console.cancelAfter = none ∧
      (app.call [] []).1.output = first.output ++ second.output ∧
      (app.call [] []).1.errors = first.errors ++ second.errors ++ ['e', '\n'] ∧
      (app.call [] []).1.code.number = 74 := by
  intro app plan first second
  have hrequest : Request.ofArguments [] = .ok (.run plan) := rfl
  have hlines : (Lines.split app.input).takeWhile (fun line => !Lines.ends line) =
      [[35], [110, 105, 108]] := by decide +kernel
  have hfailure : Lines.failure? app.inputEnd (Lines.split app.input) = some ['e'] := by
    decide +kernel
  obtain ⟨houtput, herrors, hcode⟩ :=
    call_prompt_concatenates app [] [] hrequest rfl (.inl rfl) rfl rfl
  rw [hlines] at houtput herrors
  rw [hfailure] at herrors hcode
  refine ⟨hrequest, rfl, .inl rfl, rfl, rfl, ?_, ?_, hcode⟩
  · simpa using houtput
  · simpa [Text.line] using herrors

end App

end Lox
