import Lox.Command.Lines
import Lox.Command.Pipeline

/-!
# The command

The command is called with arguments and answers with an exit code and with what it wrote. Calls on
one app share its console, its input, its reporter and the exit code of the last call that carried
out a plan; a call for a description answers with that code. A plan is carried out on a workbench
that takes over the console and the reporter and has an interpreter of its own.
-/

namespace Lox

/-- How a call ended. -/
inductive ExitCode where
  /-- All went well. -/
  | success
  /-- The command line could not be followed. -/
  | usage
  /-- The source has faults or could not be read. -/
  | data
  /-- There is no such file. -/
  | noInput
  /-- Evaluation failed. -/
  | software
  /-- Input could not be read. -/
  | inputFailed
  deriving DecidableEq, Repr

/-- The number of an exit code. -/
def ExitCode.number : ExitCode → Nat
  | success => 0
  | usage => 64
  | data => 65
  | noInput => 66
  | software => 70
  | inputFailed => 74

/-- What stands at the end of the input. -/
inductive InputEnd where
  /-- Nothing more. -/
  | endOfInput
  /-- An interruption, which ends a prompt as the end of input does. -/
  | interrupt
  /-- A failure with a message. -/
  | failure (message : Text)
  deriving DecidableEq

/-- What calls work with. -/
structure App where
  /-- The files there are, by path. -/
  files : List (Text × List UInt8) := []
  /-- The input that is left. -/
  input : List UInt8 := []
  /-- What stands after the input. -/
  inputEnd : InputEnd := .endOfInput
  /-- How much a prompt reads behind the lines it takes, by the input that it starts with. -/
  readAhead : List UInt8 → Nat := Lines.readAhead
  /-- Where programs and the command write. -/
  console : Console := {}
  /-- Where faults are reported. -/
  reporter : Reporter := {}
  /-- The code of the last call that carried out a plan. -/
  exitCode : ExitCode := .success

/-- What a call leads to. -/
structure Call where
  /-- The exit code. -/
  code : ExitCode
  /-- What was written to standard output. -/
  output : Text
  /-- What was written to standard error. -/
  errors : Text

namespace Workbench

/-- Tell how a unit ended that was run alone. A fault that was not reported yet is written last. -/
def conclude (bench : Workbench) (fault : Option Fault) : ExitCode × Workbench :=
  if bench.reporter.hadError then (.data, bench)
  else if bench.reporter.hadRuntimeError then (.software, bench)
  else
    match fault with
    | some fault => (.software, bench.say fault.message)
    | none => (.success, bench)

/-- Run one unit alone. Only an expression has its result written. -/
def runSource (bench : Workbench) (kind : UnitKind) (source : Text) : ExitCode × Workbench :=
  let (outcome, bench) := bench.run kind source
  let bench := bench.logFailure outcome.fault
  let bench := if kind = .expression then bench.echo outcome.text else bench
  bench.conclude outcome.fault

/-- Run the statements in a file. -/
def runFile (bench : Workbench) (files : List (Text × List UInt8)) (path : Text) :
    ExitCode × Workbench :=
  match files.lookup path with
  | none =>
    (.noInput, bench.say ("open ".toList ++ path ++ ": file does not exist".toList))
  | some bytes => bench.runSource .script (Utf8.decode bytes)

/-- Run one line of a prompt and write its result. -/
def runLine (bench : Workbench) (line : Text) : Workbench :=
  let (outcome, bench) := bench.run .line line
  (bench.logFailure outcome.fault).echo outcome.text

/-- The end of a prompt after all lines. -/
def endInput (bench : Workbench) : InputEnd → ExitCode × Workbench
  | .failure message => (.inputFailed, bench.say message)
  | .endOfInput | .interrupt => (.success, bench)

/-- Run lines one by one up to the first blank one. Faults of a line do not end the prompt. -/
def runLines (bench : Workbench) (inputEnd : InputEnd) :
    List (List UInt8) → ExitCode × Workbench
  | [] => bench.endInput inputEnd
  | line :: lines =>
    if Lines.isTooLong line then
      (.inputFailed, bench.say "bufio.Scanner: token too long".toList)
    else if (Lines.text line).isBlank then (.success, bench)
    else (bench.runLine (Lines.text line)).runLines inputEnd lines

/-- Run the lines of the input. -/
def runPrompt (bench : Workbench) (inputEnd : InputEnd) (input : List UInt8) :
    ExitCode × Workbench :=
  let bench := bench.log (Record.of .debug "prompt mode" [("reader", some "lines".toList)])
  bench.runLines inputEnd (Lines.split input)

end Workbench

namespace App

/-- The name of the command with what it takes. -/
def usage : Text := "loxexpr [script] [flags]".toList

/-- What the command does. -/
def description : Text := "Scan, parse and evaluate Lox expressions.".toList

/-- How the command is called. -/
def flagHelp : Text :=
  Text.join ['\n'] [
    "Usage:".toList,
    "  ".toList ++ usage,
    [],
    "Flags:".toList,
    "  -e, --eval string        evaluate a single expression and print its value".toList,
    "  -h, --help               help for loxexpr".toList,
    "      --log-level string   log level: debug, info, warn or error (default \"warn\")".toList,
    "      --print-ast string   print each parsed tree before evaluation: sexpr or rpn".toList,
    "      --print-tokens       print scanned tokens".toList,
    []]

/-- The description of the command, in the pieces in which it is written. -/
def help : List Text := [description, "\n\n".toList, flagHelp]

/-- Write pieces in order; the first one that fails is reported and ends the writing. -/
def writeAll (console : Console) : List Text → List Entry × Console
  | [] => ([], console)
  | piece :: pieces =>
    match console.write? piece with
    | none => ([.line RunFault.writeFailed.toFault.message], console)
    | some console => writeAll console pieces

/-- A workbench with the console and the reporter of the app. -/
def workbench (app : App) (settings : Settings) : Workbench :=
  { settings := settings, console := app.console, reporter := app.reporter }

/-- Carry out a plan on what the app has. -/
def carryOut (app : App) (plan : Plan) : ExitCode × Workbench :=
  let bench := app.workbench plan.settings
  match plan.task with
  | .expression source => bench.runSource .expression source
  | .script path => bench.runFile app.files path
  | .prompt => bench.runPrompt app.inputEnd app.input

/-- The input that is left after a plan. A prompt leaves what it did not read behind its lines. -/
def inputAfter (app : App) (plan : Plan) : List UInt8 :=
  match plan.task with
  | .prompt =>
    (Lines.behind app.input (Lines.split app.input)).drop (app.readAhead app.input)
  | .expression _ | .script _ => app.input

/-- The text of a fault of the command line. -/
def usageReport (fault : UsageFault) : Text :=
  Text.line ("Error: ".toList ++ fault.message) ++ Text.line ("Usage: ".toList ++ usage)

/-- Call the command at a time that records are marked with. -/
def call (app : App) (time : Text) (arguments : List Text) : Call × App :=
  match Request.ofArguments arguments with
  | .error fault => (⟨.usage, [], usageReport fault⟩, app)
  | .ok .help =>
    let (entries, console) := writeAll app.console help
    (⟨app.exitCode, console.outputFrom app.console.writes.length,
        entries.flatMap (Entry.text .warn time)⟩,
      { app with console := console })
  | .ok (.run plan) =>
    let (code, bench) := app.carryOut plan
    (⟨code, bench.console.outputFrom app.console.writes.length,
        bench.entries.flatMap (Entry.text plan.level time)⟩,
      { app with
        input := app.inputAfter plan
        console := bench.console
        reporter := bench.reporter
        exitCode := code })

end App

end Lox
