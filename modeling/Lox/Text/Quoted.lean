import Lox.Text.Basic
import Lox.Text.Printable

/-!
# Quoted text

A quoted text stands on one line between two quotes and can be read back. The quote and the
backslash are written after a backslash, printable characters as themselves, seven control
characters by a letter and all others by their code in hexadecimal.
-/

namespace Lox.Quoted

/-- The letter that names a control character after a backslash. -/
def letter? (c : Char) : Option Char :=
  if c = '\x07' then some 'a'
  else if c = '\x08' then some 'b'
  else if c = '\x0C' then some 'f'
  else if c = '\n' then some 'n'
  else if c = '\r' then some 'r'
  else if c = '\t' then some 't'
  else if c = '\x0B' then some 'v'
  else none

/-- The code of a character after a backslash: two, four or eight hexadecimal digits. -/
def code (c : Char) : Text :=
  if c.toNat < 0x80 then '\\' :: 'x' :: Text.hex 2 c.toNat
  else if c.toNat < 0x10000 then '\\' :: 'u' :: Text.hex 4 c.toNat
  else '\\' :: 'U' :: Text.hex 8 c.toNat

/-- One character as it stands between two of the given quotes. -/
def escape (quote c : Char) : Text :=
  if c = quote ∨ c = '\\' then ['\\', c]
  else if isPrintable c then [c]
  else
    match letter? c with
    | some letter => ['\\', letter]
    | none => code c

/-- A text between double quotes. -/
def text (t : Text) : Text := '"' :: (t.flatMap (escape '"') ++ ['"'])

/-- A character between single quotes. -/
def char (c : Char) : Text := '\x27' :: (escape '\x27' c ++ ['\x27'])

end Lox.Quoted
