import Lox.Number.Shortest

/-!
# Layouts of numbers

A double is written with the digits of its shortest decimal, in one of two notations: positional,
or with an exponent after the first digit. A layout says which exponents of the leading digit call
for the second notation and how the doubles without digits are written.
-/

namespace Lox

namespace Decimal

/-- Digits without the zeros at their end. -/
def trimZeros (digits : Text) : Text := (digits.reverse.dropWhile (· = '0')).reverse

/-- The digits after the point, without the zeros at their end. -/
def fraction (d : Decimal) : Text :=
  let digits := Text.ofNat (d.coefficient % Nat.pow 10 d.places)
  trimZeros (List.replicate (d.places - digits.length) '0' ++ digits)

/-- A decimal with all digits in place. -/
def positional (d : Decimal) : Text :=
  let whole := Text.ofNat (d.coefficient / Nat.pow 10 d.places)
  match d.fraction with
  | [] => whole
  | digits => whole ++ '.' :: digits

/-- The power of ten at which the leading digit stands. -/
def leadingPower (d : Decimal) : Int :=
  if d.coefficient = 0 then 0 else (Text.ofNat d.coefficient).length - 1 - d.places

/-- An exponent with its sign and at least two digits. -/
def exponent (power : Int) : Text :=
  let digits := Text.ofNat power.natAbs
  'e' :: (if power < 0 then '-' else '+') :: (List.replicate (2 - digits.length) '0' ++ digits)

/-- A decimal with a point after its leading digit and the exponent that puts it in place. -/
def scientific (d : Decimal) : Text :=
  let digits := trimZeros (Text.ofNat d.coefficient)
  let mantissa :=
    match digits with
    | lead :: next :: more => lead :: '.' :: next :: more
    | _ => digits
  mantissa ++ exponent d.leadingPower

end Decimal

/-- How numbers are written. -/
structure Layout where
  /-- The powers of the leading digit for which the exponent is written out. -/
  usesExponent : Int → Bool
  /-- The text of positive infinity. -/
  infinity : Text
  /-- The text of negative infinity. -/
  negativeInfinity : Text
  /-- The text of a double that is no number. -/
  notANumber : Text

namespace Layout

open Binary64

/-- The text of a decimal. -/
def decimal (layout : Layout) (d : Decimal) : Text :=
  if layout.usesExponent d.leadingPower then d.scientific else d.positional

/-- The text of a double: sign, then magnitude. -/
def text (layout : Layout) (x : Float) : Text :=
  let bits := x.toBits.toNat
  let rank := bits % Nat.pow 2 rankBits
  let negative := decide (Nat.pow 2 rankBits ≤ bits)
  if infinityRank < rank then layout.notANumber
  else if rank = infinityRank then
    if negative then layout.negativeInfinity else layout.infinity
  else if negative then '-' :: layout.decimal (Shortest.decimal rank)
  else layout.decimal (Shortest.decimal rank)

end Layout

end Lox
