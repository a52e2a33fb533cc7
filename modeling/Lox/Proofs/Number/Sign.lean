import Lox.Proofs.Number.ReadBack
import Lox.Value
import Mathlib

/-!
# Doubles of either sign

The text of a finite double without a sign is a number of the source, and the double nearest to it
is the one it was written for.

The bits of a double are its rank with the bit of its sign before it, so rank and sign together are
the double. Its rank tells whether it is finite, infinite or no number; of the last sort there is
one double only. A negative finite double is the negation of the magnitude of its rank, zero
included, and it is written like this magnitude with a minus sign before it. Whatever the layout,
the text of a finite double holds nothing but digits and four signs.

What is known of packing the fields of a double into bits and of unpacking them again comes from a
part of the library that is only imported with the whole of it.
-/

namespace Lox

namespace Binary64

/-- A finite double without a sign. -/
def IsMagnitude (x : Float) : Prop := ∃ rank, rank < infinityRank ∧ x = Float.ofBits rank.toUInt64

/-- The bits of a finite double are those it was made of. -/
theorem toBits_ofBits {rank : Nat} (h : rank < infinityRank) :
    (Float.ofBits rank.toUInt64).toBits.toNat = rank := by
  have hlimit : infinityRank < 2 ^ 63 := by decide
  have hrank : rank.toUInt64.toNat = rank := Nat.mod_eq_of_lt (by omega)
  -- The exponent of a finite double is not made of ones alone, so it is a number.
  have hvalid : Float.Model.Format.binary64.Valid rank.toUInt64.toBitVec := by
    refine ⟨fun hexponent => absurd (congrArg BitVec.toNat hexponent) ?_⟩
    have hones : (-BitVec.ofNat Float.Model.Format.binary64.exponentBits 1).toNat = 2047 := rfl
    have hpower : rank >>> 52 < 2047 := by
      rw [Nat.shiftRight_eq_div_pow]
      exact Nat.div_lt_of_lt_mul (Nat.mul_comm 2047 _ ▸ h)
    rw [hones, Float.Model.UnpackedFloat.unpackExponent, BitVec.toNat_cast,
      BitVec.extractLsb_toNat, UInt64.toNat_toBitVec, hrank]
    exact (Nat.lt_of_le_of_lt (Nat.mod_le _ _) hpower).ne
  have hbits : (Float.ofBits rank.toUInt64).toBits = rank.toUInt64 :=
    congrArg Float.toBits (Float.ofBits_toBits ⟨⟨rank.toUInt64, hvalid⟩⟩)
  rw [hbits, hrank]

/-- What a decimal is read as is a finite double without a sign. -/
theorem isMagnitude_of_toFloat? {d : Decimal} {x : Float} (h : d.toFloat? = some x) :
    IsMagnitude x := by
  simp only [Decimal.toFloat?] at h
  split at h
  · rename_i hrank
    exact ⟨d.rank, hrank, (Option.some.inj h).symm⟩
  · cases h

end Binary64

namespace Value

open Binary64

/-- The text of a finite double without a sign is its shortest decimal, with all digits in place. -/
theorem layout_text_ofBits {rank : Nat} (h : rank < infinityRank) :
    layout.text (Float.ofBits rank.toUInt64) = (Shortest.decimal rank).positional := by
  have hlimit : infinityRank < Nat.pow 2 rankBits := by decide
  have hrank : rank % Nat.pow 2 rankBits = rank := Nat.mod_eq_of_lt (by omega)
  have hpositive : ¬ Nat.pow 2 rankBits ≤ rank := by omega
  simp only [Layout.text, toBits_ofBits h, hrank, if_neg (Nat.lt_asymm h), if_neg h.ne,
    hpositive, decide_false]
  rfl

/-- The text of a finite double without a sign is a number of the source that is read as this
double. -/
theorem numeral_layout_text {x : Float} (h : IsMagnitude x) :
    ∃ d, Numeral (layout.text x) d ∧ d.toFloat? = some x := by
  obtain ⟨rank, hrank, rfl⟩ := h
  obtain ⟨d, hnumeral, hsame⟩ := (Shortest.decimal rank).numeral_positional
  have hrounds : d.roundsTo rank = true := by
    rw [hsame.roundsTo_eq]
    exact Shortest.roundsTo_decimal rank
  rw [layout_text_ofBits hrank]
  exact ⟨d, hnumeral, Decimal.toFloat?_of_roundsTo hrounds hrank⟩

end Value

namespace Binary64

open Float.Model Float.Model.UnpackedFloat

/-- The bits of a double without that of its sign. -/
def rankOf (x : Float) : Nat := x.toBits.toNat % Nat.pow 2 rankBits

/-- Whether the bit of the sign is set, which it may be for zero too. -/
def isNegative (x : Float) : Bool := decide (Nat.pow 2 rankBits ≤ x.toBits.toNat)

/-- The double without its sign. -/
def magnitude (x : Float) : Float := Float.ofBits (rankOf x).toUInt64

/-- The bits of a double by its sign and its rank. -/
theorem toNat_toBits (x : Float) :
    x.toBits.toNat = (if isNegative x then Nat.pow 2 rankBits else 0) + rankOf x := by
  have hlimit : Nat.pow 2 rankBits = 2 ^ 63 := rfl
  have hbits : x.toBits.toNat < 2 ^ 64 := x.toBits.toNat_lt
  rw [isNegative, rankOf, hlimit]
  by_cases hsign : 2 ^ 63 ≤ x.toBits.toNat
  · rw [decide_eq_true hsign, if_pos rfl]
    omega
  · rw [decide_eq_false hsign, if_neg Bool.false_ne_true]
    omega

/-- A double is determined by its rank and its sign. -/
theorem eq_of_rankOf {x y : Float} (hrank : rankOf x = rankOf y)
    (hsign : isNegative x = isNegative y) : x = y := by
  have hbits : x.toBits.toNat = y.toBits.toNat := by
    rw [toNat_toBits, toNat_toBits, hrank, hsign]
  exact Float.toBits_inj.mp (UInt64.toNat_inj.mp hbits)

/-- The bits of a double as its fields are read from them. -/
def fields (x : Float) : BitVec Format.binary64.numBits := x.toBits.toBitVec

/-- The exponent of a double counts the powers of two below its rank. -/
theorem toNat_unpackExponent (x : Float) :
    (unpackExponent (fields x)).toNat = rankOf x / perPower := by
  have hlimit : Nat.pow 2 rankBits = 2 ^ 63 := rfl
  have hpower : perPower = 2 ^ 52 := rfl
  have hfield : (unpackExponent (fields x)).toNat = x.toBits.toNat / 2 ^ 52 % 2 ^ 11 := by
    rw [unpackExponent, BitVec.toNat_cast, BitVec.extractLsb_toNat, Nat.shiftRight_eq_div_pow]
    rfl
  rw [hfield, rankOf, hlimit, hpower]
  omega

/-- The digits of a double after the first one are its place among the magnitudes of its power. -/
theorem toNat_unpackMantissa (x : Float) :
    (unpackMantissa (fields x)).toNat = rankOf x % perPower := by
  have hlimit : Nat.pow 2 rankBits = 2 ^ 63 := rfl
  have hpower : perPower = 2 ^ 52 := rfl
  have hfield : (unpackMantissa (fields x)).toNat = x.toBits.toNat % 2 ^ 52 := by
    rw [unpackMantissa, BitVec.toNat_cast, BitVec.extractLsb_toNat]
    rfl
  rw [hfield, rankOf, hlimit, hpower]
  omega

/-- The sign of a double is the bit before its rank. -/
theorem ofBitVec_unpackSign (x : Float) :
    Sign.ofBitVec (unpackSign (fields x)) = if isNegative x then .negative else .positive := by
  have hbits : x.toBits.toNat < 2 ^ 64 := x.toBits.toNat_lt
  have hlimit : Nat.pow 2 rankBits = 2 ^ 63 := rfl
  have hfield : (unpackSign (fields x)).toNat = x.toBits.toNat / 2 ^ 63 % 2 ^ 1 := by
    rw [unpackSign, BitVec.toNat_cast, BitVec.extractLsb_toNat, Nat.shiftRight_eq_div_pow]
    rfl
  have hzero : unpackSign (fields x) = BitVec.ofNat 1 0 ↔ ¬ 2 ^ 63 ≤ x.toBits.toNat := by
    rw [← BitVec.toNat_inj, hfield, BitVec.toNat_ofNat]
    omega
  rw [Sign.ofBitVec, isNegative, hlimit]
  by_cases hsign : 2 ^ 63 ≤ x.toBits.toNat
  · rw [if_neg (fun h => hzero.mp h hsign), decide_eq_true hsign, if_pos rfl]
  · rw [if_pos (hzero.mpr hsign), decide_eq_false hsign, if_neg Bool.false_ne_true]

/-- The exponent is made of ones alone from the rank of infinity on. -/
theorem unpackExponent_eq_ones_iff (x : Float) :
    unpackExponent (fields x) = -BitVec.ofNat Format.binary64.exponentBits 1 ↔
      infinityRank ≤ rankOf x := by
  have hones : (-BitVec.ofNat Format.binary64.exponentBits 1).toNat = 2047 := rfl
  have hrank : rankOf x < 2048 * perPower := Nat.mod_lt _ (Nat.two_pow_pos rankBits)
  have hbelow : rankOf x / perPower < 2048 := Nat.div_lt_of_lt_mul (Nat.mul_comm 2048 _ ▸ hrank)
  have hleast : 2047 ≤ rankOf x / perPower ↔ infinityRank ≤ rankOf x :=
    Nat.le_div_iff_mul_le perPower_pos
  rw [← BitVec.toNat_inj, toNat_unpackExponent, hones, ← hleast]
  omega

/-- The digits are zeros alone at the ranks that begin a power of two. -/
theorem unpackMantissa_eq_zero_iff (x : Float) :
    unpackMantissa (fields x) = BitVec.ofNat Format.binary64.mantissaBitsWithoutImplicit 0 ↔
      rankOf x % perPower = 0 := by
  rw [← BitVec.toNat_inj, toNat_unpackMantissa, BitVec.toNat_ofNat, Nat.zero_mod]

/-- A double is finite below the rank of infinity. -/
theorem isFinite_iff (x : Float) : x.isFinite = true ↔ rankOf x < infinityRank := by
  rw [← Nat.not_le, ← unpackExponent_eq_ones_iff]
  change (UnpackedFloat.unpack Format.binary64 (fields x)).isFinite = true ↔ _
  unfold UnpackedFloat.unpack
  dsimp only
  split
  · rename_i hones
    refine iff_of_false ?_ (not_not_intro hones)
    split <;> exact Bool.false_ne_true
  · rename_i hones
    refine iff_of_true ?_ hones
    split
    · split <;> rfl
    · rfl

/-- There is one double that is no number. -/
theorem eq_of_notANumber {x y : Float} (hx : infinityRank < rankOf x)
    (hy : infinityRank < rankOf y) : x = y := by
  have hbits {z : Float} (hz : infinityRank < rankOf z) : fields z = packedNaN .binary64 := by
    have hmantissa : rankOf z % perPower ≠ 0 := by
      have hpower : perPower = 2 ^ 52 := rfl
      have hrank : rankOf z < 2048 * perPower := Nat.mod_lt _ (Nat.two_pow_pos rankBits)
      have habove : 2047 * perPower < rankOf z := hz
      rw [hpower] at hrank habove ⊢
      omega
    exact z.toModel.valid.eq_packedNaN ((unpackExponent_eq_ones_iff z).mpr hz.le)
      (fun h => hmantissa ((unpackMantissa_eq_zero_iff z).mp h))
  have hfields : fields x = fields y := (hbits hx).trans (hbits hy).symm
  exact Float.toBits_inj.mp (UInt64.toBitVec_inj.mp hfields)

section Finite

variable {x : Float} (h : rankOf x < infinityRank)

include h

/-- The magnitude of a finite double is a finite double without a sign. -/
theorem isMagnitude_magnitude : IsMagnitude (magnitude x) := ⟨rankOf x, h, rfl⟩

/-- A finite double and its magnitude have the same rank. -/
theorem rankOf_magnitude : rankOf (magnitude x) = rankOf x := by
  rw [rankOf, magnitude, toBits_ofBits h]
  exact Nat.mod_eq_of_lt (Nat.mod_lt _ (Nat.two_pow_pos rankBits))

/-- A magnitude has no sign. -/
theorem isNegative_magnitude : isNegative (magnitude x) = false := by
  rw [isNegative, magnitude, toBits_ofBits h, decide_eq_false_iff_not]
  exact Nat.not_le.mpr (Nat.mod_lt _ (Nat.two_pow_pos rankBits))

/-- A finite double without a sign is its magnitude. -/
theorem magnitude_eq (hsign : isNegative x = false) : magnitude x = x :=
  eq_of_rankOf (rankOf_magnitude h) ((isNegative_magnitude h).trans hsign.symm)

/-- A finite double with a sign is the negation of its magnitude. -/
theorem neg_magnitude (hsign : isNegative x = true) : -magnitude x = x := by
  have hexponent : unpackExponent (fields (magnitude x)) = unpackExponent (fields x) := by
    rw [← BitVec.toNat_inj, toNat_unpackExponent, toNat_unpackExponent, rankOf_magnitude h]
  have hmantissa : unpackMantissa (fields (magnitude x)) = unpackMantissa (fields x) := by
    rw [← BitVec.toNat_inj, toNat_unpackMantissa, toNat_unpackMantissa, rankOf_magnitude h]
  have hpositive : Sign.ofBitVec (unpackSign (fields (magnitude x))) = .positive := by
    rw [ofBitVec_unpackSign, isNegative_magnitude h, if_neg Bool.false_ne_true]
  have hnegative : Sign.ofBitVec (unpackSign (fields x)) = .negative := by
    rw [ofBitVec_unpackSign, hsign, if_pos rfl]
  have hunpacked : (UnpackedFloat.unpack .binary64 (fields (magnitude x))).neg =
      UnpackedFloat.unpack .binary64 (fields x) := by
    unfold UnpackedFloat.unpack
    simp only [hexponent, hmantissa, hpositive, hnegative]
    split
    · split <;> rfl
    · split
      · split <;> rfl
      · rfl
  have hpacked := congrArg (fun unpacked => Float.ofModel (Float.Model.pack unpacked)) hunpacked
  exact hpacked.trans (Float.ofBits_toBits x)

end Finite

end Binary64

namespace Value

open Binary64

variable {x : Float}

/-- The text of a double by its rank and its sign. -/
theorem layout_text_eq (x : Float) :
    layout.text x =
      if infinityRank < rankOf x then layout.notANumber
      else if rankOf x = infinityRank then
        if isNegative x then layout.negativeInfinity else layout.infinity
      else if isNegative x then '-' :: (Shortest.decimal (rankOf x)).positional
      else (Shortest.decimal (rankOf x)).positional :=
  rfl

/-- The text of a double that is no number. -/
theorem layout_text_of_notANumber (h : infinityRank < rankOf x) :
    layout.text x = layout.notANumber := by
  rw [layout_text_eq, if_pos h]

/-- The text of an infinite double. -/
theorem layout_text_of_infinite (h : rankOf x = infinityRank) :
    layout.text x = if isNegative x then layout.negativeInfinity else layout.infinity := by
  rw [layout_text_eq, if_neg (h ▸ Nat.lt_irrefl _), if_pos h]

/-- A negative finite double is written as its magnitude after a minus sign. -/
theorem layout_text_of_negative (h : rankOf x < infinityRank) (hsign : isNegative x = true) :
    layout.text x = '-' :: layout.text (magnitude x) := by
  rw [magnitude, layout_text_ofBits h, layout_text_eq, if_neg (Nat.lt_asymm h), if_neg h.ne,
    if_pos hsign]

end Value

namespace Decimal

/-- What stands in a number beside its digits. -/
def signs : Text := ['.', 'e', '+', '-']

/-- What is left of digits without the zeros at their end are digits. -/
theorem mem_of_mem_trimZeros {digits : Text} {c : Char} (h : c ∈ trimZeros digits) :
    c ∈ digits := by
  obtain ⟨count, hcount⟩ := trimZeros_append digits
  rw [hcount]
  exact List.mem_append_left _ h

/-- The digits of a natural number are digits. -/
theorem isDigit_of_mem_ofNat {n : Nat} {c : Char} (h : c ∈ Text.ofNat n) : c.isDigit = true :=
  Nat.isDigit_of_mem_toDigits (by decide) (by decide) h

/-- A decimal with all digits in place is made of digits and signs. -/
theorem mem_positional {d : Decimal} {c : Char} (h : c ∈ d.positional) :
    c.isDigit = true ∨ c ∈ signs := by
  obtain ⟨e, hnumeral, -⟩ := d.numeral_positional
  generalize d.positional = text at h hnumeral
  cases hnumeral with
  | whole hdigits => exact .inl (hdigits.2 c h)
  | point hdigits hfraction =>
    rcases List.mem_append.mp h with h | h
    · exact .inl (hdigits.2 c h)
    · rcases List.mem_cons.mp h with rfl | h
      · exact .inr (by decide)
      · exact .inl (hfraction.2 c h)

/-- An exponent is made of digits and signs. -/
theorem mem_exponent {power : Int} {c : Char} (h : c ∈ exponent power) :
    c.isDigit = true ∨ c ∈ signs := by
  rcases List.mem_cons.mp h with rfl | h
  · exact .inr (by decide)
  · rcases List.mem_cons.mp h with rfl | h
    · split <;> exact .inr (by decide)
    · rcases List.mem_append.mp h with h | h
      · rw [List.eq_of_mem_replicate h]
        exact .inl rfl
      · exact .inl (isDigit_of_mem_ofNat h)

/-- A decimal with an exponent is made of digits and signs. -/
theorem mem_scientific {d : Decimal} {c : Char} (h : c ∈ d.scientific) :
    c.isDigit = true ∨ c ∈ signs := by
  have hdigits : ∀ c ∈ trimZeros (Text.ofNat d.coefficient), c.isDigit = true :=
    fun c hc => isDigit_of_mem_ofNat (mem_of_mem_trimZeros hc)
  rcases List.mem_append.mp h with h | h
  · generalize trimZeros (Text.ofNat d.coefficient) = digits at h hdigits
    match digits with
    | [] => cases h
    | [lead] => exact .inl (hdigits c h)
    | lead :: next :: more =>
      rw [List.forall_mem_cons] at hdigits
      rcases List.mem_cons.mp h with rfl | h
      · exact .inl hdigits.1
      · rcases List.mem_cons.mp h with rfl | h
        · exact .inr (by decide)
        · exact .inl (hdigits.2 c h)
  · exact mem_exponent h

end Decimal

namespace Layout

open Binary64

/-- The texts that a layout has for the doubles without digits. -/
def words (layout : Layout) : List Text :=
  [layout.notANumber, layout.infinity, layout.negativeInfinity]

/-- The text of a double is one of the words of the layout or made of digits and signs. -/
theorem text_mem_words_or (layout : Layout) (x : Float) :
    layout.text x ∈ layout.words ∨
      ∀ c ∈ layout.text x, c.isDigit = true ∨ c ∈ Decimal.signs := by
  have hdecimal (d : Decimal) : ∀ c ∈ layout.decimal d, c.isDigit = true ∨ c ∈ Decimal.signs := by
    intro c hc
    unfold decimal at hc
    split at hc
    · exact Decimal.mem_scientific hc
    · exact Decimal.mem_positional hc
  unfold text
  dsimp only
  split
  · exact .inl (by simp [words])
  · split
    · split <;> exact .inl (by simp [words])
    · refine .inr ?_
      split
      · rw [List.forall_mem_cons]
        exact ⟨.inr (by decide), hdecimal _⟩
      · exact hdecimal _

end Layout

end Lox
