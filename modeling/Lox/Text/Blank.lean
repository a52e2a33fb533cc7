import Lox.Text.Basic

/-!
# Blank text

The characters that may be trimmed from the ends of a prompt line: the ASCII blanks from the tab to
the carriage return, the space, the two blanks of Latin-1 and the separators of general text. The
zero-width space U+200B and the byte order mark U+FEFF are not among them.
-/

namespace Lox

/-- The code points of the separators, as ranges with both ends included. -/
def spaceRanges : List (Nat × Nat) := [
  (0x09, 0x0D), (0x20, 0x20), (0x85, 0x85), (0xA0, 0xA0), (0x1680, 0x1680), (0x2000, 0x200A),
  (0x2028, 0x2029), (0x202F, 0x202F), (0x205F, 0x205F), (0x3000, 0x3000)]

/-- A character that only separates. -/
def isSpace (c : Char) : Bool :=
  spaceRanges.any fun range => range.1 ≤ c.toNat && c.toNat ≤ range.2

/-- A text that is empty once its ends are trimmed. -/
def Text.isBlank (text : Text) : Bool := text.all isSpace

end Lox
