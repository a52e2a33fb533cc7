import Lox.Fault.Reporter
import Lox.Reading.Basic

/-!
# Reporting while reading

A fault is reported where it is found, before whoever asked for the reading gets to see it; those
who pass it on do not report it again. A reader that reports carries the reader it agrees with: it
makes the same of the tokens, and of the sink what one report of its fault makes of it.
-/

namespace Lox

/-- Where faults are reported, if they are reported at all. -/
abbrev Sink := Option Reporter

/-- Report a fault of the source or of reading. -/
def Sink.error (sink : Sink) (fault : Fault) : Sink :=
  sink.map fun reporter => reporter.error (some fault)

namespace Reading

variable {α β : Type}

/-- Stop with a fault that was not reported yet. -/
def refuse (sink : Sink) (fault : SyntaxFault) (rest : List Token) : Reading α × Sink :=
  (.refused fault rest, sink.error (.parse fault))

/-- Go on after something was read; a fault is passed on as it is. -/
def handOn (next : α → List Token → Sink → Reading β × Sink) :
    Reading α × Sink → Reading β × Sink
  | (accepted value rest, sink) => next value rest sink
  | (refused fault rest, sink) => (.refused fault rest, sink)

/-- The sink after the fault of a reading, if it has one, was reported to it once. -/
def reportedTo (sink : Sink) : Reading α → Sink
  | accepted _ _ => sink
  | refused fault _ => sink.error (.parse fault)

/-- A reading together with its report. -/
def reported (sink : Sink) (reading : Reading α) : Reading α × Sink :=
  (reading, reading.reportedTo sink)

/-- Going on after something was read, without reports. -/
def proceed (next : α → List Token → Reading β) : Reading α → Reading β
  | accepted value rest => next value rest
  | refused fault rest => .refused fault rest

/-- Going on with steps that report their fault once reports the fault of the whole once: a fault
that is passed on was reported by the step that found it. -/
theorem handOn_reported {next : α → List Token → Sink → Reading β × Sink}
    {quiet : α → List Token → Reading β}
    (hnext : ∀ value rest sink, next value rest sink = (quiet value rest).reported sink)
    (sink : Sink) (reading : Reading α) :
    handOn next (reading.reported sink) = (reading.proceed quiet).reported sink := by
  cases reading with
  | accepted value rest => exact hnext value rest sink
  | refused fault rest => rfl

end Reading

/-- A reader that reports its fault as soon as it finds it. -/
structure ReportingReader (α : Type) where
  /-- The reader that makes the same of the tokens. -/
  reader : Reader α
  /-- Read from the front of these tokens and report to the sink. -/
  run : List Token → Sink → Reading α × Sink
  /-- The reading is that of the reader, and its fault is reported once. -/
  run_eq : ∀ tokens sink, run tokens sink = (reader.run tokens).reported sink

/-- Reading moves forward, whoever is reported to. -/
theorem ReportingReader.advances {α : Type} (reporting : ReportingReader α)
    (tokens : List Token) (sink : Sink) : (reporting.run tokens sink).1.Advances tokens := by
  rw [reporting.run_eq]
  exact reporting.reader.advances tokens

end Lox
