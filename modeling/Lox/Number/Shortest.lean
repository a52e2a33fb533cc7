import Lox.Number.Decimal

/-!
# The shortest decimal of a double

Among the decimals that are read back as a given magnitude, the ones with the fewest significant
digits are shortest, and of those the one nearest to the magnitude is chosen; of two equally near
the one whose last digit is even. For each number of digits only the two neighbours of the magnitude
can qualify. A magnitude is itself a decimal, so the search ends.
-/

namespace Lox.Shortest

open Binary64

/-- The number of places after the point that a magnitude needs to be written exactly. -/
def places (rank : Nat) : Nat := unitBits - scale rank

/-- All digits of a magnitude, as a natural number that has `places` digits after the point. -/
def digits (rank : Nat) : Nat :=
  significand rank * Nat.pow 2 (scale rank - unitBits) * Nat.pow 5 (places rank)

/-- The decimal with these digits and as many places as the magnitude is read as the magnitude. -/
def readsBack (rank coefficient : Nat) : Bool := Decimal.roundsTo ⟨coefficient, places rank⟩ rank

/-- Of the two multiples of `10 ^ shift` around the digits of the magnitude, the one that is read
back, and the nearer one if both are. -/
def neighbour? (rank whole shift : Nat) : Option Nat :=
  let step := Nat.pow 10 shift
  let low := whole / step * step
  let high := low + step
  let above := whole % step
  match readsBack rank low, readsBack rank high with
  | false, false => none
  | true, false => some low
  | false, true => some high
  | true, true =>
    if 2 * above < step ∨ (2 * above = step ∧ whole / step % 2 = 0) then some low else some high

/-- The shortest coefficient, trying one digit first and ending with all digits of the magnitude. -/
def coefficient (rank : Nat) : Nat :=
  let whole := digits rank
  let count := (Text.ofNat whole).length
  ((List.range count).findSome? fun more => neighbour? rank whole (count - 1 - more)).getD whole

/-- The shortest decimal of the magnitude at a rank. -/
def decimal (rank : Nat) : Decimal := ⟨coefficient rank, places rank⟩

end Lox.Shortest
