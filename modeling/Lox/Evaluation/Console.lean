import Lox.Text.Basic

/-!
# Consoles

A console takes writes in order. It may stop taking them after a given number. It may also ask for
the program to be cancelled, once a given number of writes were taken and the program has passed a
given number of checks, so that a cancellation can come at any check, whether something was written
since the last one or not. A write that fails leaves no trace.
-/

namespace Lox

/-- Checks can be passed in any case only where the program is cancelled at all. -/
def Console.Patient (cancelAfter : Option Nat) : Nat → Prop
  | 0 => True
  | _ + 1 => cancelAfter.isSome

/-- What was written and when writing fails or the program is cancelled. -/
structure Console where
  /-- The writes taken so far, in order. -/
  writes : List Text := []
  /-- The number of writes taken before every further one fails. -/
  failAfter : Option Nat := none
  /-- The number of writes taken before the program is cancelled. -/
  cancelAfter : Option Nat := none
  /-- The number of checks that the program still passes in any case. -/
  patience : Nat := 0
  /-- There is no patience where the program is never cancelled. -/
  patient : Console.Patient cancelAfter patience := by exact trivial

namespace Console

/-- Whether the next write fails. -/
def fails (console : Console) : Bool :=
  match console.failAfter with
  | some limit => limit ≤ console.writes.length
  | none => false

/-- Whether a check finds the program cancelled. -/
def cancelled (console : Console) : Bool :=
  match console.patience, console.cancelAfter with
  | 0, some limit => limit ≤ console.writes.length
  | _, _ => false

/-- Less patience is allowed where some is. -/
theorem Patient.pred {cancelAfter : Option Nat} {patience : Nat}
    (h : Patient cancelAfter patience) : Patient cancelAfter (patience - 1) := by
  match patience with
  | 0 | 1 => trivial
  | _ + 2 => exact h

/-- The console once the program has passed a check. -/
def checked (console : Console) : Console :=
  { console with
    patience := console.patience - 1
    patient := console.patient.pred }

/-- Write a text in one piece, unless that fails. -/
def write? (console : Console) (text : Text) : Option Console :=
  if console.fails then none else some { console with writes := console.writes ++ [text] }

/-- Write a text in one piece if possible; a failure does not matter. -/
def write (console : Console) (text : Text) : Console := (console.write? text).getD console

/-- Write a text on a line of its own if possible. -/
def writeLine (console : Console) (text : Text) : Console := console.write (Text.line text)

/-- What was written after the first `count` writes. -/
def outputFrom (console : Console) (count : Nat) : Text := (console.writes.drop count).flatten

end Console

end Lox
