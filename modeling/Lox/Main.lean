import Lox.Command.App
import Std.Time.DateTime
import Std.Time.Format

/-!
# The command line

Fetches what a call needs (the time, the script, the lines of standard input), makes the call and
writes what it answers.
-/

namespace Lox

/-- All bytes that are left on a stream, after the ones read so far. -/
partial def readAll (stream : IO.FS.Stream) (bytes : ByteArray) : IO ByteArray := do
  let chunk ← stream.read 65536
  if chunk.isEmpty then return bytes else readAll stream (bytes ++ chunk)

/-- The present time in UTC, to the nanosecond as far as that is not zero. -/
def presentTime : IO Text := do
  let now ← Std.Time.Timestamp.now
  let time := Std.Time.PlainDateTime.ofWallTime (.ofNanoseconds now.toNanosecondsSinceUnixEpoch)
  let seconds := (time.format "uuuu-MM-dd'T'HH:mm:ss").toList
  let fraction := Decimal.trimZeros (time.format "SSSSSSSSS").toList
  return seconds ++ (if fraction = [] then [] else '.' :: fraction) ++ ['Z']

/-- An app that holds what a request asks for: the script if there is one, the input of a prompt. -/
def App.forRequest : Except UsageFault Request → IO App
  | .ok (.run plan) =>
    match plan.task with
    | .script path => do
      match ← (IO.FS.readBinFile (String.ofList path)).toBaseIO with
      | .ok content => return { files := [(path, content.toList)] }
      | .error _ => return {}
    | .prompt => return { input := (← readAll (← IO.getStdin) .empty).toList }
    | .expression _ => return {}
  | _ => return {}

end Lox

/-- Call the command with the arguments of the process. -/
def main (arguments : List String) : IO UInt32 := do
  let arguments := arguments.map String.toList
  let app ← Lox.App.forRequest (Lox.Request.ofArguments arguments)
  let (call, _) := app.call (← Lox.presentTime) arguments
  (← IO.getStdout).putStr (String.ofList call.output)
  (← IO.getStderr).putStr (String.ofList call.errors)
  return call.code.number.toUInt32
