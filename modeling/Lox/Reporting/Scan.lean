import Lox.Reporting.Basic
import Lox.Source.Scan

/-!
# Reporting while scanning

Scanning takes the segments of a source in order. A segment that should not be there is added to the
faults so far and reported at once.
-/

namespace Lox.Scan

/-- Take one segment. -/
def takeSegment (state : Scan × Sink) (piece : Segment × Nat) : Scan × Sink :=
  let scan := { state.1 with tokens := state.1.tokens ++ (Segment.token? piece).toList }
  match Segment.fault? piece with
  | none => (scan, state.2)
  | some fault => ({ scan with faults := scan.faults ++ [fault] }, state.2.error (.scan fault))

/-- The tokens and faults of a source, with the faults reported to the sink. -/
def ofSourceTo (sink : Sink) (source : Text) : Scan × Sink :=
  let lastLine := 1 + source.lineFeeds
  let pieces := Segment.located 1 (segments source)
  let (scan, sink) := pieces.foldl takeSegment (⟨[], [], lastLine⟩, sink)
  ({ scan with tokens := scan.tokens ++ [Token.endOfSource lastLine] }, sink)

end Lox.Scan
