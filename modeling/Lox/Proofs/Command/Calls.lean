import Lox.Proofs.Command.Independence

/-!
# Calls one after the other

Calls on one app share its console, its reporter, its input and an exit code that it remembers. A
call answers as it would on a new app with the same files and with the input that the earlier calls
left, however much of it a prompt has read ahead. Only the remembered code shows: a call for the
description of the command answers with it.
-/

namespace Lox

/-- What a prompt does not take stands at the end of the input. -/
theorem Lines.behind_suffix (input : List UInt8) (lines : List (List UInt8)) :
    behind input lines <:+ input := by
  induction lines generalizing input with
  | nil => exact List.nil_suffix
  | cons line lines ih =>
    unfold behind
    split
    · exact List.drop_suffix _ _
    · split
      · exact List.drop_suffix _ _
      · exact (ih _).trans (List.drop_suffix _ _)

/-- Arguments that lead to a plan, so that the call carries it out. -/
def Request.isPlan (arguments : List Text) : Bool :=
  match Request.ofArguments arguments with
  | .ok (.run _) => true
  | .ok .help | .error _ => false

namespace App

/-- The app after calls, each with its time and its arguments. -/
def after (app : App) : List (Text × List Text) → App
  | [] => app
  | (time, arguments) :: later => (app.call time arguments).2.after later

/-- What calls answered, each with its arguments. -/
def history (app : App) : List (Text × List Text) → List (List Text × Call)
  | [] => []
  | (time, arguments) :: later =>
    (arguments, (app.call time arguments).1) :: (app.call time arguments).2.history later

/-- The exit codes of those calls that carried out a plan. -/
def planCodes (app : App) (calls : List (Text × List Text)) : List ExitCode :=
  ((app.history calls).filter fun entry => Request.isPlan entry.1).map fun entry => entry.2.code

/-- An app as it is built: nothing was written or reported yet. -/
def build (files : List (Text × List UInt8)) (input : List UInt8) (inputEnd : InputEnd)
    (readAhead : List UInt8 → Nat) : App :=
  { files := files, input := input, inputEnd := inputEnd, readAhead := readAhead }

/-- What a plan leaves stands at the end of the input. -/
theorem inputAfter_suffix (app : App) (plan : Plan) : app.inputAfter plan <:+ app.input := by
  unfold inputAfter
  split
  · exact (List.drop_suffix _ _).trans (Lines.behind_suffix _ _)
  · exact List.suffix_rfl
  · exact List.suffix_rfl

/-- What a call leaves stands at the end of the input. -/
theorem input_call_suffix (app : App) (time : Text) (arguments : List Text) :
    (app.call time arguments).2.input <:+ app.input := by
  unfold App.call
  split
  · exact List.suffix_rfl
  · exact List.suffix_rfl
  · exact app.inputAfter_suffix _

/-- What calls leave stands at the end of the input. -/
theorem input_after_suffix (app : App) (calls : List (Text × List Text)) :
    (app.after calls).input <:+ app.input := by
  induction calls generalizing app with
  | nil => exact List.suffix_rfl
  | cons call calls ih => exact (ih _).trans (app.input_call_suffix call.1 call.2)

section Keeps

variable {files : List (Text × List UInt8)} {inputEnd : InputEnd} {app : App}
variable (readAhead : List UInt8 → Nat)

/-- What calls do not change of an app with a working console. -/
structure Keeps (files : List (Text × List UInt8)) (inputEnd : InputEnd) (app : App) : Prop where
  /-- The files are the same. -/
  files : app.files = files
  /-- What stands at the end of the input is the same. -/
  inputEnd : app.inputEnd = inputEnd
  /-- The console takes every write and never cancels. -/
  console : ∃ writes, app.console = .working writes

/-- Carrying out a plan on a used app and on a new one with the same input leads to the same. -/
theorem carryOut_follows (h : Keeps files inputEnd app) (plan : Plan) :
    (app.carryOut plan).1 = ((build files app.input inputEnd readAhead).carryOut plan).1 ∧
      Workbench.Follows (app.workbench plan.settings)
        ((build files app.input inputEnd readAhead).carryOut plan).2 (app.carryOut plan).2 := by
  obtain ⟨writes, hconsole⟩ := h.console
  have hstart : Workbench.Follows (app.workbench plan.settings)
      ((build files app.input inputEnd readAhead).workbench plan.settings)
      (app.workbench plan.settings) :=
    Workbench.Follows.start hconsole
  unfold carryOut
  rw [h.files, h.inputEnd]
  cases plan.task with
  | expression source => exact hstart.runSource .expression source
  | script path => exact hstart.runFile files path
  | prompt => exact (hstart.log _).runLines inputEnd (Lines.split app.input)

/-- A working console takes everything. -/
theorem writeAll_working (writes pieces : List Text) :
    writeAll (.working writes) pieces = ([], .working (writes ++ pieces)) := by
  induction pieces generalizing writes with
  | nil => rw [List.append_nil, writeAll]
  | cons piece pieces ih =>
    have hwrite : (Console.working writes).write? piece = some (.working (writes ++ [piece])) := rfl
    rw [writeAll, hwrite]
    refine (ih (writes ++ [piece])).trans ?_
    rw [List.append_assoc, List.singleton_append]

/-- A call keeps what calls do not change. -/
theorem Keeps.call (h : Keeps files inputEnd app) (time : Text) (arguments : List Text) :
    Keeps files inputEnd (app.call time arguments).2 := by
  unfold App.call
  split
  · exact h
  · obtain ⟨writes, hconsole⟩ := h.console
    rw [hconsole, writeAll_working]
    exact ⟨h.files, h.inputEnd, writes ++ help, rfl⟩
  · rename_i plan hrequest
    obtain ⟨writes, -, hused⟩ := (carryOut_follows app.readAhead h plan).2.console
    exact ⟨h.files, h.inputEnd, _, hused⟩

/-- Calls keep what calls do not change. -/
theorem Keeps.after (h : Keeps files inputEnd app) (calls : List (Text × List Text)) :
    Keeps files inputEnd (app.after calls) := by
  induction calls generalizing app with
  | nil => exact h
  | cons call calls ih => exact ih (h.call call.1 call.2)

/-- A call that carries out a plan answers what it answers on a new app with the same input. -/
theorem Keeps.call_plan (h : Keeps files inputEnd app) {arguments : List Text} {plan : Plan}
    (hrequest : Request.ofArguments arguments = .ok (.run plan)) (time : Text) :
    (app.call time arguments).1 =
      ((build files app.input inputEnd readAhead).call time arguments).1 := by
  obtain ⟨hcode, hfollows⟩ := carryOut_follows readAhead h plan
  have hshown : (app.carryOut plan).2.shown plan.level time =
      ((build files app.input inputEnd readAhead).carryOut plan).2.shown plan.level time :=
    congrArg (List.flatMap (Entry.text plan.level time)) hfollows.entries
  have houtput : (app.carryOut plan).2.console.outputFrom app.console.writes.length =
      ((build files app.input inputEnd readAhead).carryOut plan).2.console.outputFrom 0 :=
    hfollows.console.outputFrom_eq
  rw [call_of_run hrequest, call_of_run hrequest, hcode, hshown, houtput]
  rfl

/-- A call for the description writes it and answers with the code that is remembered. -/
theorem Keeps.call_help (h : Keeps files inputEnd app) {arguments : List Text}
    (hrequest : Request.ofArguments arguments = .ok .help) (time : Text) :
    (app.call time arguments).1 = ⟨app.exitCode, help.flatten, []⟩ := by
  obtain ⟨writes, hconsole⟩ := h.console
  rw [App.call, hrequest]
  dsimp only
  rw [hconsole, writeAll_working, ← Console.outputFrom_working writes help]
  rfl

end Keeps

/-- A call that carries out a plan is remembered, any other is not. -/
theorem exitCode_call (app : App) (time : Text) (arguments : List Text) :
    (app.call time arguments).2.exitCode =
      if Request.isPlan arguments then (app.call time arguments).1.code else app.exitCode := by
  unfold App.call Request.isPlan
  cases Request.ofArguments arguments with
  | error fault => rfl
  | ok request => cases request <;> rfl

/-- The app remembers the code of the last call that carried out a plan. -/
theorem exitCode_after (app : App) (calls : List (Text × List Text)) :
    (app.after calls).exitCode = (app.planCodes calls).getLast?.getD app.exitCode := by
  induction calls generalizing app with
  | nil => rfl
  | cons call calls ih =>
    obtain ⟨time, arguments⟩ := call
    rw [after, ih, exitCode_call, planCodes, planCodes, history, List.filter_cons]
    split
    · rw [List.map_cons, List.getLast?_cons, Option.getD_some]
    · rfl

/-- Calls on one app do not influence each other. After any earlier calls, with a console that takes
every write and never cancels, a call answers what it answers on a new app with the same files and
with the input that is left, which is an end of what the app was built with: prompts leave what
stands behind their lines, but for as many bytes as they happened to read ahead. A call for the
description writes the same as well, but its code is that of the last earlier call that carried out
a plan, or 0 without one; calls with arguments that cannot be followed answer with 64 and are not
remembered. -/
theorem call_independent_of_earlier (files : List (Text × List UInt8)) (input : List UInt8)
    (inputEnd : InputEnd) (readAhead : List UInt8 → Nat) (earlier : List (Text × List Text))
    (time : Text) (arguments : List Text) :
    let app := build files input inputEnd readAhead
    let used := app.after earlier
    let fresh := build files used.input inputEnd readAhead
    let call := (used.call time arguments).1
    let alone := (fresh.call time arguments).1
    used.input <:+ input ∧
    (Request.ofArguments arguments ≠ .ok .help → call = alone) ∧
    (Request.ofArguments arguments = .ok .help →
      call = { alone with code := (app.planCodes earlier).getLast?.getD .success }) ∧
    (∀ fault, Request.ofArguments arguments = .error fault → call.code.number = 64) := by
  intro app used fresh call alone
  have hbuilt : ∀ input, Keeps files inputEnd (build files input inputEnd readAhead) :=
    fun input => ⟨rfl, rfl, [], rfl⟩
  have hused : Keeps files inputEnd used := (hbuilt input).after earlier
  refine ⟨app.input_after_suffix earlier, fun hnot => ?_, fun hhelp => ?_, fun fault hfault => ?_⟩
  · cases hrequest : Request.ofArguments arguments with
    | error fault =>
      have husage : ∀ app : App, (app.call time arguments).1 = ⟨.usage, [], usageReport fault⟩ := by
        intro app
        rw [App.call, hrequest]
      exact (husage used).trans (husage fresh).symm
    | ok request =>
      cases request with
      | help => exact absurd hrequest hnot
      | run plan => exact hused.call_plan readAhead hrequest time
  · have hcode : used.exitCode = (app.planCodes earlier).getLast?.getD .success :=
      exitCode_after app earlier
    refine (hused.call_help hhelp time).trans ?_
    rw [hcode, show alone = _ from (hbuilt used.input).call_help hhelp time]
  · change (used.call time arguments).1.code.number = 64
    rw [App.call, hfault]
    rfl

/-- A prompt with a line that fails and a blank line leaves the line behind them, a missing script
and a call that cannot be followed leave it as well. A prompt then answers to that line as on a new
app, while the description asked for has the code of the missing script. -/
theorem call_independent_of_earlier_leftover :
    let input : List UInt8 := [64, 10, 10, 34, 97, 34, 10]
    let app := build [] input .endOfInput fun _ => 0
    let earlier : List (Text × List Text) := [([], []), ([], [['a']]), ([], [['a'], ['b']])]
    let used := app.after earlier
    let help := ["-h".toList]
    used.input = [34, 97, 34, 10] ∧ Request.ofArguments [] ≠ .ok .help ∧
      (used.call [] []).1.output = ['a', '\n'] ∧
      Request.ofArguments help = .ok .help ∧ (used.call [] help).1.code.number = 66 := by
  intro input app earlier used help
  have hleft : used.input = [34, 97, 34, 10] := rfl
  have hcodes : app.planCodes earlier = [.success, .noInput] := rfl
  obtain ⟨-, hprompt, -⟩ :=
    call_independent_of_earlier [] input .endOfInput (fun _ => 0) earlier [] []
  obtain ⟨-, -, hhelp, -⟩ :=
    call_independent_of_earlier [] input .endOfInput (fun _ => 0) earlier [] help
  refine ⟨hleft, nofun, ?_, rfl, ?_⟩
  · rw [hprompt nofun]
    decide +kernel
  · rw [hhelp rfl]
    change (((app.planCodes earlier).getLast?).getD .success).number = 66
    rw [hcodes]
    rfl

end App

end Lox
