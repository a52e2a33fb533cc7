import Lox.Number.Binary64
import Lox.Text.Basic

/-!
# Decimals and the doubles nearest to them

A decimal is a natural number over a power of ten. It is read as the double nearest to it; a decimal
halfway between two doubles goes to the one of even rank. The search climbs the ladder of ranks by
falling powers of two and keeps the highest rank whose lower boundary the decimal has passed.
-/

namespace Lox

/-- The number `coefficient / 10 ^ places`. -/
structure Decimal where
  /-- All digits, read as one natural number. -/
  coefficient : Nat
  /-- How many of the digits stand after the point. -/
  places : Nat
  deriving DecidableEq, Repr

namespace Decimal

open Binary64

/-- The decimal written by the digits before and after a point. -/
def ofDigits (whole fraction : Text) : Decimal :=
  ⟨Nat.ofDigitChars 10 (whole ++ fraction) 0, fraction.length⟩

/-- The value has passed the boundary below the rank, or stands on it and the rank is even. -/
def reaches (d : Decimal) (rank : Nat) : Bool :=
  let value := d.coefficient * Nat.pow 2 (unitBits + 1)
  let below := boundary rank * Nat.pow 10 d.places
  rank = 0 || below < value || (below = value && rank % 2 = 0)

/-- The double at this rank is the one that the decimal is read as. -/
def roundsTo (d : Decimal) (rank : Nat) : Bool :=
  d.reaches rank && !d.reaches (rank + 1)

/-- The highest rank reached among `base` and the `2 ^ steps - 1` ranks after it. -/
def climb (reached : Nat → Bool) : Nat → Nat → Nat
  | 0, base => base
  | step + 1, base =>
    if reached (base + Nat.pow 2 step) then climb reached step (base + Nat.pow 2 step)
    else climb reached step base

/-- The rank of the nearest double. -/
def rank (d : Decimal) : Nat := climb d.reaches rankBits 0

/-- The nearest double, unless that is infinity. -/
def toFloat? (d : Decimal) : Option Float :=
  let rank := d.rank
  if rank < infinityRank then some (Float.ofBits rank.toUInt64) else none

end Decimal

end Lox
