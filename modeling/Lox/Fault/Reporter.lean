import Lox.Fault.Basic

/-!
# Reporters

A reporter writes each fault on a line of its own and remembers whether it has seen a fault of the
source or of reading, and whether it has seen a fault of evaluation, since it was last reset.
-/

namespace Lox

/-- What a reporter has written and remembers. -/
structure Reporter where
  /-- Everything written so far. -/
  written : Text := []
  /-- A fault of the source or of reading was reported. -/
  hadError : Bool := false
  /-- A fault of evaluation was reported. -/
  hadRuntimeError : Bool := false

namespace Reporter

/-- The line that reports a fault, or that there was none. -/
def lineOf (fault : Option Fault) : Text :=
  Text.line (match fault with
    | some fault => fault.message
    | none => Value.absent)

/-- Write a fault and remember nothing. -/
def mention (reporter : Reporter) (fault : Option Fault) : Reporter :=
  { reporter with written := reporter.written ++ lineOf fault }

/-- Report a fault of the source or of reading. -/
def error (reporter : Reporter) (fault : Option Fault) : Reporter :=
  { reporter.mention fault with hadError := true }

/-- Report a fault of evaluation. -/
def runtimeError (reporter : Reporter) (fault : Option Fault) : Reporter :=
  { reporter.mention fault with hadRuntimeError := true }

/-- Report several faults of the source or of reading in order. -/
def errors (reporter : Reporter) (faults : List Fault) : Reporter :=
  faults.foldl (fun reporter fault => reporter.error (some fault)) reporter

/-- Forget what was seen; what is written stays. -/
def reset (reporter : Reporter) : Reporter :=
  { reporter with hadError := false, hadRuntimeError := false }

end Reporter

end Lox
