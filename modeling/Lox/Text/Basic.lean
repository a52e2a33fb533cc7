/-!
# Text

Source, lexemes and output are lists of characters, so that a law about text is a law about lists.
Numbers that count something, such as lines and positions, are written in decimal.
-/

namespace Lox

/-- Source, lexemes and output, as characters in reading order. -/
abbrev Text := List Char

namespace Text

/-- The character that stands for something that could not be read. -/
def replacement : Char := Char.ofNat 0xFFFD

/-- The number of line feeds in a text, which is the number of lines it ends. -/
def lineFeeds (text : Text) : Nat := text.count '\n'

/-- Decimal digits of a natural number, without leading zeros. -/
def ofNat (n : Nat) : Text := Nat.toDigits 10 n

/-- Decimal digits of an integer, with a sign only below zero. -/
def ofInt : Int → Text
  | .ofNat n => ofNat n
  | .negSucc n => '-' :: ofNat (n + 1)

/-- Lower-case hexadecimal digits of a number, with leading zeros up to the given width. -/
def hex (width n : Nat) : Text :=
  let digits := Nat.toDigits 16 n
  List.replicate (width - digits.length) '0' ++ digits

/-- The text of a truth value. -/
def ofBool (b : Bool) : Text := if b then "true".toList else "false".toList

/-- The parts in order, with the separator between neighbours. -/
def join (separator : Text) : List Text → Text
  | [] => []
  | [part] => part
  | part :: parts => part ++ separator ++ join separator parts

/-- A text with one line feed after it. -/
def line (text : Text) : Text := text ++ ['\n']

end Text

end Lox
