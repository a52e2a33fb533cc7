import Lox.Number.Shortest
import Mathlib.Order.Monotone.Basic
import Mathlib.Tactic.Ring

/-!
# Decimals and the doubles they are read as

Magnitudes grow with their rank, and so do the points halfway between neighbours. A decimal that has
reached a rank has therefore reached all ranks below it, and exactly one double is the nearest to
it; the search by falling powers of two finds that one. Which double that is depends on the value of
the decimal alone, whatever the number of its places. The shortest decimal of a magnitude is read as
that magnitude.
-/

namespace Lox

namespace Binary64

theorem perPower_pos : 0 < perPower := by decide

theorem two_pow_succ (n : Nat) : Nat.pow 2 (n + 1) = Nat.pow 2 n * 2 := rfl

theorem two_pow_add (m n : Nat) : Nat.pow 2 (m + n) = Nat.pow 2 m * Nat.pow 2 n :=
  Nat.pow_add 2 m n

/-- A rank is a place among the magnitudes of some power of two. -/
theorem div_mod_perPower (power : Nat) {place : Nat} (h : place < perPower) :
    (power * perPower + place) / perPower = power ∧
      (power * perPower + place) % perPower = place := by
  rw [Nat.mul_comm, Nat.mul_add_div perPower_pos, Nat.mul_add_mod, Nat.div_eq_of_lt h,
    Nat.mod_eq_of_lt h]
  exact ⟨rfl, rfl⟩

/-- Magnitudes below the first power are counted one by one. -/
theorem units_of_lt {rank : Nat} (h : rank < perPower) : units rank = rank := by
  have hscale : scale rank = 0 := by rw [scale, Nat.div_eq_of_lt h]
  rw [units, hscale, significand, if_pos h]
  exact Nat.mul_one rank

/-- A magnitude by the power of two below it and its place among the magnitudes of that power. -/
theorem units_eq (power : Nat) {place : Nat} (h : place < perPower) :
    units ((power + 1) * perPower + place) = (perPower + place) * Nat.pow 2 power := by
  obtain ⟨hpower, hplace⟩ := div_mod_perPower (power + 1) h
  have hge : ¬ (power + 1) * perPower + place < perPower := by
    rw [Nat.add_mul]
    omega
  rw [units, scale, hpower, significand, if_neg hge, hplace]
  rfl

/-- The next magnitude is one step of the scale further. -/
theorem units_succ (rank : Nat) : units (rank + 1) = units rank + Nat.pow 2 (scale rank) := by
  by_cases hfirst : rank < perPower
  · have hscale : scale rank = 0 := by rw [scale, Nat.div_eq_of_lt hfirst]
    have hsucc : units (rank + 1) = rank + 1 := by
      by_cases hnext : rank + 1 < perPower
      · exact units_of_lt hnext
      · have hrank : rank + 1 = (0 + 1) * perPower + 0 := by omega
        rw [hrank, units_eq 0 perPower_pos]
        exact Nat.mul_one _
    rw [hsucc, units_of_lt hfirst, hscale, Nat.pow_eq, Nat.pow_zero]
  · obtain ⟨power, hpower⟩ : ∃ power, rank / perPower = power + 1 :=
      Nat.exists_eq_succ_of_ne_zero
        (Nat.div_ne_zero_iff.mpr ⟨perPower_pos.ne', Nat.le_of_not_lt hfirst⟩)
    have hplace : rank % perPower < perPower := Nat.mod_lt rank perPower_pos
    have hrank : rank = (power + 1) * perPower + rank % perPower := by
      rw [← hpower]
      exact (Nat.div_add_mod' rank perPower).symm
    have hscale : scale rank = power := by
      rw [scale, hpower]
      rfl
    rw [hscale]
    generalize rank % perPower = place at hplace hrank
    subst hrank
    rw [units_eq power hplace]
    -- The last magnitude of a power is followed by the first one of the next.
    by_cases hnext : place + 1 < perPower
    · rw [Nat.add_assoc, units_eq power hnext]
      ring
    · have hlast : (power + 1) * perPower + place + 1 = (power + 1 + 1) * perPower + 0 := by
        rw [Nat.add_mul (power + 1) 1]
        omega
      have hend : perPower + place + 1 = 2 * perPower := by omega
      rw [hlast, units_eq (power + 1) perPower_pos, two_pow_succ]
      calc (perPower + 0) * (Nat.pow 2 power * 2) = 2 * perPower * Nat.pow 2 power := by ring
        _ = (perPower + place + 1) * Nat.pow 2 power := by rw [hend]
        _ = (perPower + place) * Nat.pow 2 power + Nat.pow 2 power := by ring

/-- Magnitudes grow with their rank. -/
theorem units_strictMono : StrictMono units := by
  refine strictMono_nat_of_lt_succ fun rank => ?_
  have hstep : 0 < Nat.pow 2 (scale rank) := Nat.two_pow_pos _
  rw [units_succ]
  omega

/-- The point below a positive rank is below the magnitude. -/
theorem boundary_lt {rank : Nat} (h : 0 < rank) : boundary rank < 2 * units rank := by
  have hbelow : units (rank - 1) < units rank := units_strictMono (by omega)
  rw [boundary]
  omega

/-- The point above a rank is above the magnitude. -/
theorem lt_boundary_succ (rank : Nat) : 2 * units rank < boundary (rank + 1) := by
  have habove : units rank < units (rank + 1) := units_strictMono (Nat.lt_succ_self rank)
  rw [boundary, Nat.add_sub_cancel]
  omega

end Binary64

namespace Decimal

open Binary64

/-- Two decimals are the same number, perhaps with different places. -/
def SameValue (d e : Decimal) : Prop :=
  d.coefficient * Nat.pow 10 e.places = e.coefficient * Nat.pow 10 d.places

/-- A decimal has reached a rank if it is past the point below it, or on it and the rank is even. -/
theorem reaches_iff (d : Decimal) (rank : Nat) :
    d.reaches rank = true ↔ rank = 0 ∨
      boundary rank * Nat.pow 10 d.places < d.coefficient * Nat.pow 2 (unitBits + 1) ∨
      (boundary rank * Nat.pow 10 d.places = d.coefficient * Nat.pow 2 (unitBits + 1) ∧
        rank % 2 = 0) := by
  simp only [reaches, Bool.or_eq_true, Bool.and_eq_true, decide_eq_true_eq, or_assoc]

/-- A decimal that has reached a rank has reached the one below it. -/
theorem reaches_of_reaches_succ {d : Decimal} {rank : Nat} (h : d.reaches (rank + 1) = true) :
    d.reaches rank = true := by
  rw [reaches_iff] at h ⊢
  rcases Nat.eq_zero_or_pos rank with hzero | hpos
  · exact .inl hzero
  · have hten : 0 < Nat.pow 10 d.places := Nat.pow_pos (by decide)
    have hpoints : boundary rank < boundary (rank + 1) :=
      Nat.lt_trans (boundary_lt hpos) (lt_boundary_succ rank)
    have hscaled := Nat.mul_lt_mul_of_pos_right hpoints hten
    refine .inr (.inl ?_)
    omega

/-- A decimal that has reached a rank has reached all ranks below it. -/
theorem reaches_of_le {d : Decimal} {rank other : Nat} (h : d.reaches rank = true)
    (hle : other ≤ rank) : d.reaches other = true := by
  induction hle with
  | refl => exact h
  | step hle ih => exact ih (reaches_of_reaches_succ h)

/-- A decimal is read as one double only. -/
theorem roundsTo_iff (d : Decimal) (rank : Nat) :
    d.roundsTo rank = true ↔ ∀ other, d.reaches other = true ↔ other ≤ rank := by
  rw [roundsTo, Bool.and_eq_true, Bool.not_eq_true']
  constructor
  · rintro ⟨hreached, hnext⟩ other
    refine ⟨fun hother => ?_, reaches_of_le hreached⟩
    apply Nat.le_of_not_lt
    intro hlt
    rw [reaches_of_le hother hlt] at hnext
    cases hnext
  · intro h
    refine ⟨(h rank).mpr (Nat.le_refl rank), ?_⟩
    rw [Bool.eq_false_iff]
    intro hnext
    exact Nat.not_succ_le_self rank ((h (rank + 1)).mp hnext)

/-- The search ends at the highest rank that is reached. -/
theorem climb_eq {reached : Nat → Bool} {rank : Nat}
    (h : ∀ other, reached other = true ↔ other ≤ rank) (steps : Nat) {base : Nat}
    (hbase : base ≤ rank) (hrank : rank < base + Nat.pow 2 steps) :
    climb reached steps base = rank := by
  induction steps generalizing base with
  | zero =>
    have hone : Nat.pow 2 0 = 1 := rfl
    rw [climb]
    omega
  | succ step ih =>
    rw [two_pow_succ] at hrank
    rw [climb]
    by_cases hreached : base + Nat.pow 2 step ≤ rank
    · rw [if_pos ((h _).mpr hreached)]
      exact ih hreached (by omega)
    · rw [if_neg (fun hother => hreached ((h _).mp hother))]
      exact ih hbase (by omega)

/-- The search finds the rank of the double that a decimal is read as. -/
theorem rank_eq_of_roundsTo {d : Decimal} {rank : Nat} (h : d.roundsTo rank = true)
    (hrank : rank < infinityRank) : d.rank = rank := by
  refine climb_eq ((roundsTo_iff d rank).mp h) rankBits (Nat.zero_le rank) ?_
  have hlimit : infinityRank < Nat.pow 2 rankBits := by decide
  omega

/-- A decimal is read as the double of the rank that it is rounded to. -/
theorem toFloat?_of_roundsTo {d : Decimal} {rank : Nat} (h : d.roundsTo rank = true)
    (hrank : rank < infinityRank) : d.toFloat? = some (Float.ofBits rank.toUInt64) := by
  simp only [toFloat?, rank_eq_of_roundsTo h hrank, if_pos hrank]

/-- How far a decimal reaches depends on its value alone. -/
theorem SameValue.reaches_eq {d e : Decimal} (h : d.SameValue e) (rank : Nat) :
    d.reaches rank = e.reaches rank := by
  have hd : 0 < Nat.pow 10 d.places := Nat.pow_pos (by decide)
  have he : 0 < Nat.pow 10 e.places := Nat.pow_pos (by decide)
  have hpoint : boundary rank * Nat.pow 10 d.places * Nat.pow 10 e.places =
      boundary rank * Nat.pow 10 e.places * Nat.pow 10 d.places := Nat.mul_right_comm _ _ _
  have hvalue : d.coefficient * Nat.pow 2 (unitBits + 1) * Nat.pow 10 e.places =
      e.coefficient * Nat.pow 2 (unitBits + 1) * Nat.pow 10 d.places := by
    rw [Nat.mul_right_comm, h, Nat.mul_right_comm]
  -- Both sides of a comparison are multiplied by the power of ten of the other decimal.
  have hless : boundary rank * Nat.pow 10 d.places < d.coefficient * Nat.pow 2 (unitBits + 1) ↔
      boundary rank * Nat.pow 10 e.places < e.coefficient * Nat.pow 2 (unitBits + 1) := by
    rw [← Nat.mul_lt_mul_right he, hpoint, hvalue, Nat.mul_lt_mul_right hd]
  have hequal : boundary rank * Nat.pow 10 d.places = d.coefficient * Nat.pow 2 (unitBits + 1) ↔
      boundary rank * Nat.pow 10 e.places = e.coefficient * Nat.pow 2 (unitBits + 1) := by
    rw [← Nat.mul_left_inj he.ne', hpoint, hvalue, Nat.mul_left_inj hd.ne']
  rw [Bool.eq_iff_iff, reaches_iff, reaches_iff, hless, hequal]

/-- What a decimal is rounded to depends on its value alone. -/
theorem SameValue.roundsTo_eq {d e : Decimal} (h : d.SameValue e) (rank : Nat) :
    d.roundsTo rank = e.roundsTo rank := by
  rw [roundsTo, roundsTo, h.reaches_eq, h.reaches_eq]

end Decimal

namespace Shortest

open Binary64

/-- All digits of a magnitude together are the magnitude. -/
theorem digits_exact (rank : Nat) :
    digits rank * Nat.pow 2 unitBits = units rank * Nat.pow 10 (places rank) := by
  have hten : Nat.pow 10 (places rank) = Nat.pow 2 (places rank) * Nat.pow 5 (places rank) :=
    Nat.mul_pow 2 5 (places rank)
  have htwo : Nat.pow 2 (scale rank - unitBits) * Nat.pow 2 unitBits =
      Nat.pow 2 (scale rank) * Nat.pow 2 (places rank) := by
    have hsum : scale rank - unitBits + unitBits = scale rank + places rank := by
      rw [places]
      omega
    rw [← two_pow_add, hsum, two_pow_add]
  calc digits rank * Nat.pow 2 unitBits
      = significand rank * (Nat.pow 2 (scale rank - unitBits) * Nat.pow 2 unitBits) *
          Nat.pow 5 (places rank) := by rw [digits]; ring
    _ = significand rank * Nat.pow 2 (scale rank) *
          (Nat.pow 2 (places rank) * Nat.pow 5 (places rank)) := by rw [htwo]; ring
    _ = units rank * Nat.pow 10 (places rank) := by rw [hten, units]

/-- All digits of a magnitude together are read back. -/
theorem readsBack_digits (rank : Nat) : readsBack rank (digits rank) = true := by
  have hten : 0 < Nat.pow 10 (places rank) := Nat.pow_pos (by decide)
  have hvalue : digits rank * Nat.pow 2 (unitBits + 1) =
      2 * units rank * Nat.pow 10 (places rank) := by
    rw [two_pow_succ, ← Nat.mul_assoc, digits_exact, Nat.mul_comm _ 2, Nat.mul_assoc]
  rw [readsBack, Decimal.roundsTo, Bool.and_eq_true, Bool.not_eq_true', Bool.eq_false_iff,
    ne_eq, Decimal.reaches_iff, Decimal.reaches_iff, hvalue]
  have habove := Nat.mul_lt_mul_of_pos_right (lt_boundary_succ rank) hten
  dsimp only
  refine ⟨?_, by omega⟩
  rcases Nat.eq_zero_or_pos rank with hzero | hpos
  · exact .inl hzero
  · exact .inr (.inl (Nat.mul_lt_mul_of_pos_right (boundary_lt hpos) hten))

/-- A neighbour that is chosen is read back. -/
theorem readsBack_of_neighbour? {rank whole shift coefficient : Nat}
    (h : neighbour? rank whole shift = some coefficient) : readsBack rank coefficient = true := by
  simp only [neighbour?] at h
  split at h
  · cases h
  · rename_i hlow hhigh
    cases h
    exact hlow
  · rename_i hlow hhigh
    cases h
    exact hhigh
  · rename_i hlow hhigh
    split at h
    · cases h
      exact hlow
    · cases h
      exact hhigh

/-- The shortest decimal of a magnitude is read back. -/
theorem roundsTo_decimal (rank : Nat) : (decimal rank).roundsTo rank = true := by
  have hcoefficient : readsBack rank (coefficient rank) = true := by
    simp only [coefficient]
    cases hfound : List.findSome? _ _ with
    | none => exact readsBack_digits rank
    | some found =>
      obtain ⟨more, -, hmore⟩ := List.exists_of_findSome?_eq_some hfound
      exact readsBack_of_neighbour? hmore
  exact hcoefficient

end Shortest

end Lox
