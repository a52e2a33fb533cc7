/-!
# Magnitudes of doubles

The doubles without their sign form one ladder, numbered by rank: rank 0 is zero, then come the
subnormal and the normal magnitudes in ascending order, and infinity stands right after the largest
finite one. The rank is also the bit pattern without the sign bit. Every magnitude is a whole number
of units, the least positive double, so that magnitudes are compared as natural numbers. Infinity
counts as the magnitude that the ladder would reach there, which is what rounding compares with.
-/

namespace Lox.Binary64

/-- Magnitudes between two powers of two, which all have the same distance to the next. -/
def perPower : Nat := Nat.pow 2 52

/-- There are `2 ^ unitBits` units in one. -/
def unitBits : Nat := 1074

/-- The rank of infinity, which is also the number of finite magnitudes. -/
def infinityRank : Nat := 2047 * perPower

/-- Ranks are the numbers of `rankBits` bits, those of doubles that are no number included. -/
def rankBits : Nat := 63

/-- The power of two by which the significand of a rank is scaled, in units. -/
def scale (rank : Nat) : Nat := rank / perPower - 1

/-- The digits of a rank in base two, read as a natural number. -/
def significand (rank : Nat) : Nat :=
  if rank < perPower then rank else perPower + rank % perPower

/-- The magnitude at a rank, in units. -/
def units (rank : Nat) : Nat := significand rank * Nat.pow 2 (scale rank)

/-- Twice the point halfway between a rank and the rank below it, in units. -/
def boundary (rank : Nat) : Nat := units (rank - 1) + units rank

end Lox.Binary64
