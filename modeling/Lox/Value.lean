import Lox.Number.Layout
import Lox.Text.Quoted

/-!
# Values

A value is nil, a truth value, a number or a string. Its plain text is what a program prints; its
dump also tells strings from everything else. Where evaluation may end without any value, the value
is optional, and the absence of a value is not the value nil.
-/

namespace Lox

/-- What an expression can evaluate to. -/
inductive Value where
  /-- The value of a variable that was given none. -/
  | nil
  /-- A truth value. -/
  | bool (b : Bool)
  /-- A double. -/
  | number (x : Float)
  /-- A text. -/
  | string (s : Text)
  deriving DecidableEq

/-- The four kinds of values. -/
inductive ValueKind where
  /-- The kind of nil alone. -/
  | nil
  /-- Truth values. -/
  | bool
  /-- Doubles. -/
  | number
  /-- Texts. -/
  | string
  deriving DecidableEq, Repr

namespace ValueKind

/-- The kinds in the order of their numbers, from zero. -/
def all : List ValueKind := [nil, bool, number, string]

/-- The number of a kind. -/
def code : ValueKind → Nat
  | nil => 0
  | bool => 1
  | number => 2
  | string => 3

/-- The name of a kind. -/
def name : ValueKind → Text
  | nil => "nil".toList
  | bool => "bool".toList
  | number => "number".toList
  | string => "string".toList

/-- The name that goes with a number; a number of no kind is shown as it is. -/
def nameOfCode (n : Nat) : Text :=
  match all[n]? with
  | some kind => kind.name
  | none => "ValueType(".toList ++ Text.ofNat n ++ [')']

end ValueKind

namespace Value

/-- The kind a value belongs to. -/
def kind : Value → ValueKind
  | nil => .nil
  | bool _ => .bool
  | number _ => .number
  | string _ => .string

/-- Printed numbers have all digits in place and never an exponent. -/
def layout : Layout where
  usesExponent _ := false
  infinity := "Infinity".toList
  negativeInfinity := "-Infinity".toList
  notANumber := "NaN".toList

/-- The text that printing a value writes. -/
def text : Value → Text
  | nil => "nil".toList
  | bool b => Text.ofBool b
  | number x => layout.text x
  | string s => s

/-- The text of a value with strings quoted. -/
def dump : Value → Text
  | string s => Quoted.text s
  | v => v.text

/-- What is shown where no value is held. -/
def absent : Text := "<nil>".toList

/-- The text of an optional value. -/
def textOf : Option Value → Text
  | none => absent
  | some v => v.text

/-- The dump of an optional value. -/
def dumpOf : Option Value → Text
  | none => absent
  | some v => v.dump

/-- Only nil, false and the absence of a value count as false. -/
def isTruthy : Option Value → Bool
  | none => false
  | some nil => false
  | some (bool b) => b
  | some _ => true

/-- Equality of the language: kinds never mix, and a double that is no number differs from itself. -/
def same : Option Value → Option Value → Bool
  | none, none => true
  | some nil, some nil => true
  | some (bool a), some (bool b) => a == b
  | some (number x), some (number y) => x == y
  | some (string s), some (string t) => s == t
  | _, _ => false

end Value

end Lox
