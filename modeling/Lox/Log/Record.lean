import Lox.Evaluation.Execution
import Lox.Text.Logfmt

/-!
# Log records

A record has a level and named fields. It is written as one line if its level is at least the level
asked for. Lines of the log and other lines share one stream, in the order in which they arise.
-/

namespace Lox

/-- How much a record matters. -/
inductive LogLevel where
  /-- Every step. -/
  | debug
  /-- What the outcome of a unit was. -/
  | info
  /-- Nothing that is logged so far. -/
  | warn
  /-- Nothing that is logged so far. -/
  | error
  deriving DecidableEq, Repr

namespace LogLevel

/-- The levels from the least to the most important. -/
def all : List LogLevel := [debug, info, warn, error]

/-- The name of a level. -/
def name : LogLevel → Text
  | debug => "debug".toList
  | info => "info".toList
  | warn => "warn".toList
  | error => "error".toList

/-- The place of a level in the order of importance. -/
def rank : LogLevel → Nat
  | debug => 0
  | info => 1
  | warn => 2
  | error => 3

/-- The small form of a character, as far as it matters for the names of levels: the ASCII letters
and the dotted capital I, whose small form is the ASCII letter. -/
def lower (c : Char) : Char := if c.toNat = 0x130 then 'i' else c.toLower

/-- The level with the given name in capital or small letters. -/
def ofText? (text : Text) : Option LogLevel :=
  all.find? fun level => level.name == text.map lower

end LogLevel

/-- One record of the log. -/
structure Record where
  /-- How much it matters. -/
  level : LogLevel
  /-- The part of the program it comes from, if that is not the command itself. -/
  component : Option Text := none
  /-- What it says, by name and in order; a value may be missing. -/
  fields : List (Text × Option Text)

namespace Record

/-- A record of the command with a message and further fields. -/
def of (level : LogLevel) (message : String) (fields : List (String × Option Text)) : Record where
  level := level
  fields := ("msg".toList, some message.toList) ::
    fields.map fun field => (field.1.toList, field.2)

/-- The line of a record at a point in time. -/
def text (time : Text) (record : Record) : Text :=
  Logfmt.line <|
    ("level".toList, some record.level.name) :: ("ts".toList, some time) ::
    ((record.component.map fun component => ("component".toList, some component)).toList ++
      record.fields)

end Record

/-- The record of what an execution made known. -/
def Notice.record (notice : Notice) : Record :=
  let record :=
    match notice with
    | executed index environment =>
      Record.of .debug "executed statement"
        [("index", some (Text.ofNat index)), ("env", some environment.text)]
    | failed fault => Record.of .debug "runtime error" [("err", some fault.toFault.message)]
  { record with component := some "interpreter".toList }

/-- Something that goes to the stream of log lines and reports. -/
inductive Entry where
  /-- A record of the log. -/
  | logged (record : Record)
  /-- Text that does not belong to the log. -/
  | plain (text : Text)

namespace Entry

/-- A line that does not belong to the log. -/
def line (text : Text) : Entry := plain (Text.line text)

/-- What an entry writes when records below a level are left out. -/
def text (threshold : LogLevel) (time : Text) : Entry → Text
  | logged record => if threshold.rank ≤ record.level.rank then record.text time else []
  | plain text => text

end Entry

end Lox
