import Lox.Text.Blank
import Lox.Text.Utf8

/-!
# Lines of input

Input is a string of bytes. Its lines end at line feeds; the last line may lack one. A carriage
return at the end of a line does not belong to it. A line that is too long is never read.

A prompt takes lines up to a blank one. They come through a buffer, which is filled as far as it can
be whenever a line is not in it yet, so a prompt may have read more than the lines it took.
-/

namespace Lox.Lines

/-- The lines of an input without their line feeds. -/
def split : List UInt8 → List (List UInt8)
  | [] => []
  | byte :: rest =>
    if byte = 10 then [] :: split rest
    else
      match split rest with
      | [] => [[byte]]
      | line :: lines => (byte :: line) :: lines

/-- The number of bytes from which on a line is too long. -/
def limit : Nat := 65536

/-- A line that cannot be read. -/
def isTooLong (line : List UInt8) : Bool := limit ≤ line.length

/-- The text of a line, without the carriage return at its end. -/
def text (line : List UInt8) : Text :=
  Utf8.decode (if line.getLast? = some 13 then line.dropLast else line)

/-- What stands in an input, given with its lines, behind those that a prompt takes. Of a line that
is too long it takes as much as is needed to see that. -/
def behind (input : List UInt8) : List (List UInt8) → List UInt8
  | [] => []
  | line :: lines =>
    if isTooLong line then input.drop limit
    else if (text line).isBlank then input.drop (line.length + 1)
    else behind (input.drop (line.length + 1)) lines

/-- A buffer between an input and the lines taken from it, by numbers of bytes. -/
structure Buffer where
  /-- The room there is. -/
  size : Nat := 0
  /-- The bytes at the start of which lines were made. -/
  taken : Nat := 0
  /-- The bytes behind them. -/
  held : Nat := 0

namespace Buffer

/-- Whether there is no room left behind the bytes. -/
def isFull (buffer : Buffer) : Bool := buffer.taken + buffer.held = buffer.size

/-- Drop the bytes taken, if room is needed or they fill more than half of it. -/
def shift (buffer : Buffer) : Buffer :=
  if buffer.isFull ∨ buffer.size / 2 < buffer.taken then { buffer with taken := 0 } else buffer

/-- Make more room, if there is none left. -/
def grow (buffer : Buffer) : Buffer :=
  if buffer.isFull then { buffer with size := min (max 4096 (2 * buffer.size)) limit } else buffer

/-- The number of bytes that can be read at once, of those that are not read. -/
def count (buffer : Buffer) (unread : Nat) : Nat :=
  min unread (buffer.size - (buffer.taken + buffer.held))

/-- Read as many bytes as there is room for. -/
def read (buffer : Buffer) (unread : Nat) : Buffer :=
  { buffer with held := buffer.held + buffer.count unread }

/-- Read until the buffer holds the number of bytes needed or no more can be read. The result has
the number of bytes of the input that are not read. -/
def fill (buffer : Buffer) (needed unread : Nat) : Buffer × Nat :=
  if needed ≤ buffer.held ∨ buffer.shift.grow.count unread = 0 then (buffer, unread)
  else (buffer.shift.grow.read unread).fill needed (unread - buffer.shift.grow.count unread)
termination_by unread
decreasing_by
  have hread : buffer.shift.grow.count unread ≤ unread := Nat.min_le_left _ _
  omega

/-- Take a number of bytes. -/
def take (buffer : Buffer) (count : Nat) : Buffer :=
  { buffer with taken := buffer.taken + count, held := buffer.held - count }

/-- The number of bytes that are held once a prompt has taken its lines. -/
def heldAfter (buffer : Buffer) (unread : Nat) : List (List UInt8) → Nat
  | [] => 0
  | line :: lines =>
    if isTooLong line then 0
    else
      let (filled, unread) := buffer.fill (line.length + 1) unread
      let later := filled.take (line.length + 1)
      if (text line).isBlank then later.held else later.heldAfter unread lines

end Buffer

/-- The number of bytes that a prompt reads from an input behind the lines it takes. -/
def readAhead (input : List UInt8) : Nat := ({} : Buffer).heldAfter input.length (split input)

end Lox.Lines
