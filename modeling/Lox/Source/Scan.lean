import Lox.Fault.Basic
import Lox.Source.Segment

/-!
# Scanning

Scanning turns the segments of a source into its tokens and its faults, each on the line of its last
character, and closes the tokens with the end of the source. Lines are counted from one by the line
feeds passed.
-/

namespace Lox

namespace Segment

/-- Each segment with the line of its last character, the first one starting on the given line. -/
def located (line : Nat) : List Segment → List (Segment × Nat)
  | [] => []
  | segment :: rest =>
    let line := line + segment.text.lineFeeds
    (segment, line) :: located line rest

/-- The token of a segment that is a lexeme. -/
def token? : Segment × Nat → Option Token
  | (lexeme kind literal text, line) => some ⟨kind, text, literal, line⟩
  | _ => none

/-- The fault of a segment that should not be there. -/
def fault? : Segment × Nat → Option ScanFault
  | (stray c, line) => some ⟨line, .unexpectedCharacter, Quoted.char c⟩
  | (overflow text, line) => some ⟨line, .invalidNumber, Quoted.text text⟩
  | (unterminated _, line) => some ⟨line, .unterminatedString, []⟩
  | _ => none

end Segment

/-- What scanning a source yields. -/
structure Scan where
  /-- The tokens, closed by the end of the source. -/
  tokens : List Token
  /-- What is wrong with the source, in order. -/
  faults : List ScanFault
  /-- The last line of the source. -/
  lastLine : Nat

namespace Scan

/-- The tokens and faults of a source. -/
def ofSource (source : Text) : Scan :=
  let pieces := Segment.located 1 (segments source)
  let lastLine := 1 + source.lineFeeds
  { tokens := pieces.filterMap Segment.token? ++ [Token.endOfSource lastLine]
    faults := pieces.filterMap Segment.fault?
    lastLine := lastLine }

/-- Scanning on at the end of the source finds nothing and closes the tokens once more. -/
def again (scan : Scan) : Scan :=
  { scan with tokens := scan.tokens ++ [Token.endOfSource scan.lastLine] }

/-- The faults as they are reported. -/
def reports (scan : Scan) : List Fault := scan.faults.map .scan

/-- All faults as one. -/
def fault? (scan : Scan) : Option Fault := Fault.join (scan.reports.map some)

end Scan

end Lox
