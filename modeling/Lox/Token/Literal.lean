import Lox.Value

/-!
# Literals

The literal of a token is the datum its text stands for, if any. Literals are data of the reader of
the source and become values only in a tree: a whole number never does, and no datum becomes nil.
Number literals have their own layout.
-/

namespace Lox

/-- The datum carried by a token. -/
inductive Literal where
  /-- No datum. -/
  | none
  /-- A truth value. -/
  | bool (b : Bool)
  /-- A double. -/
  | number (x : Float)
  /-- A text. -/
  | string (s : Text)
  /-- A whole number, which is no value of the language. -/
  | integer (n : Int)
  /-- A value that is carried as it is. -/
  | value (v : Value)
  deriving DecidableEq

namespace Literal

/-- The value a literal stands for. -/
def value? : Literal → Option Value
  | none => some .nil
  | bool b => some (.bool b)
  | number x => some (.number x)
  | string s => some (.string s)
  | integer _ => .none
  | value v => some v

/-- Number literals are written with an exponent from a million on and below a ten-thousandth. -/
def layout : Layout where
  usesExponent power := power < -4 || 6 ≤ power
  infinity := "+Inf".toList
  negativeInfinity := "-Inf".toList
  notANumber := "NaN".toList

/-- The text of a literal. -/
def text : Literal → Text
  | none => Value.absent
  | bool b => Text.ofBool b
  | number x => layout.text x
  | string s => s
  | integer n => Text.ofInt n
  | value v => v.text

/-- The text of a literal with strings quoted. -/
def dump : Literal → Text
  | string s => Quoted.text s
  | value v => v.dump
  | literal => literal.text

end Literal

end Lox
