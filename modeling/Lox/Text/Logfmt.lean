import Lox.Text.Basic

/-!
# Values in log lines

A log line is a row of `key=value` pairs. A value stands as it is unless it holds a blank or control
character, an equals sign, a double quote or the replacement character; then it is quoted. The word
`null` stands for a missing value, so a value that reads `null` is quoted too.
-/

namespace Lox.Logfmt

/-- A character that may not stand in a value without quotes. -/
def needsQuotes (c : Char) : Bool := c ≤ ' ' || c = '=' || c = '"' || c = Text.replacement

/-- One character of a quoted value. -/
def escape (c : Char) : Text :=
  if c = '\\' ∨ c = '"' then ['\\', c]
  else if c = '\n' then ['\\', 'n']
  else if c = '\r' then ['\\', 'r']
  else if c = '\t' then ['\\', 't']
  else if c < ' ' ∨ c = Text.replacement then '\\' :: 'u' :: Text.hex 4 c.toNat
  else [c]

/-- The text of a missing value. -/
def missing : Text := "null".toList

/-- A value as it stands after its key. -/
def value : Option Text → Text
  | none => missing
  | some text =>
    if text = missing ∨ text.any needsQuotes then '"' :: (text.flatMap escape ++ ['"'])
    else text

/-- A key and its value. -/
def pair (field : Text × Option Text) : Text := field.1 ++ '=' :: value field.2

/-- A row of pairs, separated by spaces, on a line of its own. -/
def line (fields : List (Text × Option Text)) : Text := Text.line (Text.join [' '] (fields.map pair))

end Lox.Logfmt
