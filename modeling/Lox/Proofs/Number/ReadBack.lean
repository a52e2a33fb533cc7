import Lox.Proofs.Number.Rounding
import Lox.Proofs.Source.Tokenisation
import Mathlib.Tactic.NthRewrite
import Mathlib.Tactic.Ring

/-!
# Decimals are read back

A decimal written down with all digits in place is a number of the source. Its digits lose only
zeros at their end, which does not change its value.
-/

namespace Lox

namespace Decimal

/-- Only zeros are trimmed. -/
theorem trimZeros_append (digits : Text) :
    ∃ count, digits = trimZeros digits ++ List.replicate count '0' := by
  refine ⟨(digits.reverse.takeWhile (· = '0')).length, ?_⟩
  have hzeros : digits.reverse.takeWhile (· = '0') =
      List.replicate (digits.reverse.takeWhile (· = '0')).length '0' := by
    refine List.eq_replicate_of_mem fun c hc => ?_
    exact of_decide_eq_true (List.all_eq_true.mp List.all_takeWhile c hc)
  have hsplit : digits.reverse.takeWhile (· = '0') ++ digits.reverse.dropWhile (· = '0') =
      digits.reverse := List.takeWhile_append_dropWhile
  have hback := congrArg List.reverse hsplit
  rw [List.reverse_append, List.reverse_reverse] at hback
  rw [← List.reverse_replicate, ← hzeros]
  exact hback.symm

/-- The digits after the point, with the zeros that are not written. -/
def padded (d : Decimal) : Text :=
  let digits := Text.ofNat (d.coefficient % Nat.pow 10 d.places)
  List.replicate (d.places - digits.length) '0' ++ digits

/-- Zeros in front do not count. -/
theorem ofDigitChars_padded (d : Decimal) :
    Nat.ofDigitChars 10 d.padded 0 = d.coefficient % Nat.pow 10 d.places := by
  rw [padded, Nat.ofDigitChars_append, Nat.ofDigitChars_replicate_zero, Nat.mul_zero]
  exact Nat.ofDigitChars_ten_toDigits

/-- There are as many digits after the point as there are places, if there are any. -/
theorem length_padded {d : Decimal} (h : 0 < d.places) : d.padded.length = d.places := by
  have hlt : d.coefficient % Nat.pow 10 d.places < Nat.pow 10 d.places :=
    Nat.mod_lt _ (Nat.pow_pos (by decide))
  have hlength : (Text.ofNat (d.coefficient % Nat.pow 10 d.places)).length ≤ d.places :=
    (Nat.length_toDigits_le_iff (by decide) h).mpr hlt
  rw [padded, List.length_append, List.length_replicate]
  omega

/-- The digits after the point are digits. -/
theorem isDigit_of_mem_padded {d : Decimal} {c : Char} (h : c ∈ d.padded) : c.isDigit = true := by
  rcases List.mem_append.mp h with hzero | hdigit
  · rw [List.eq_of_mem_replicate hzero]
    rfl
  · exact Nat.isDigit_of_mem_toDigits (by decide) (by decide) hdigit

/-- What is written after the point is short of zeros only, and stands for what is after the
point. -/
theorem fraction_spec (d : Decimal) :
    (∀ c ∈ d.fraction, c.isDigit = true) ∧ ∃ count, d.fraction.length + count = d.places ∧
      Nat.ofDigitChars 10 d.fraction 0 * Nat.pow 10 count =
        d.coefficient % Nat.pow 10 d.places := by
  obtain ⟨count, hcount⟩ : ∃ count, d.padded = d.fraction ++ List.replicate count '0' :=
    trimZeros_append d.padded
  refine ⟨fun c hc => isDigit_of_mem_padded (hcount ▸ List.mem_append_left _ hc), ?_⟩
  rcases Nat.eq_zero_or_pos d.places with hnone | hsome
  · have hfraction : d.fraction = [] := by
      rw [fraction, hnone]
      simp only [Nat.pow_eq, Nat.pow_zero, Nat.mod_one]
      rfl
    refine ⟨0, by rw [hfraction, hnone]; rfl, ?_⟩
    rw [hfraction, hnone]
    simp only [Nat.pow_eq, Nat.pow_zero, Nat.mod_one]
    rfl
  · refine ⟨count, ?_, ?_⟩
    · rw [← length_padded hsome, hcount, List.length_append, List.length_replicate]
    · rw [← ofDigitChars_padded, hcount, Nat.ofDigitChars_append,
        Nat.ofDigitChars_replicate_zero, Nat.mul_comm]
      rfl

/-- A decimal with all digits in place is a number of the source, of the same value. -/
theorem numeral_positional (d : Decimal) :
    ∃ e, Numeral d.positional e ∧ e.SameValue d := by
  have hwhole : Text.IsDigits (Text.ofNat (d.coefficient / Nat.pow 10 d.places)) :=
    ⟨Nat.toDigits_ne_nil, fun c hc => Nat.isDigit_of_mem_toDigits (by decide) (by decide) hc⟩
  obtain ⟨hdigits, count, hlength, hfraction⟩ := d.fraction_spec
  refine ⟨ofDigits (Text.ofNat (d.coefficient / Nat.pow 10 d.places)) d.fraction, ?_, ?_⟩
  · rw [positional]
    cases hcases : d.fraction with
    | nil => exact .whole hwhole
    | cons c rest => exact .point hwhole ⟨List.cons_ne_nil c rest, hcases ▸ hdigits⟩
  · have hcoefficient : Nat.ofDigitChars 10
        (Text.ofNat (d.coefficient / Nat.pow 10 d.places) ++ d.fraction) 0 =
        Nat.pow 10 d.fraction.length * (d.coefficient / Nat.pow 10 d.places) +
          Nat.ofDigitChars 10 d.fraction 0 := by
      rw [Nat.ofDigitChars_append, Nat.ofDigitChars_eq_ofDigitChars_zero, Text.ofNat,
        Nat.ofDigitChars_ten_toDigits]
      rfl
    have hplaces : Nat.pow 10 d.places = Nat.pow 10 count * Nat.pow 10 d.fraction.length := by
      rw [← hlength, Nat.add_comm]
      exact Nat.pow_add 10 count d.fraction.length
    have hsplit := Nat.div_add_mod d.coefficient (Nat.pow 10 d.places)
    calc Nat.ofDigitChars 10
          (Text.ofNat (d.coefficient / Nat.pow 10 d.places) ++ d.fraction) 0 * Nat.pow 10 d.places
        = Nat.pow 10 d.fraction.length * (Nat.pow 10 d.places *
            (d.coefficient / Nat.pow 10 d.places)) +
            Nat.ofDigitChars 10 d.fraction 0 * Nat.pow 10 d.places := by rw [hcoefficient]; ring
      _ = Nat.pow 10 d.fraction.length * (Nat.pow 10 d.places *
            (d.coefficient / Nat.pow 10 d.places) + Nat.ofDigitChars 10 d.fraction 0 *
              Nat.pow 10 count) := by
          nth_rewrite 3 [hplaces]
          ring
      _ = d.coefficient * Nat.pow 10 d.fraction.length := by
          rw [hfraction, hsplit, Nat.mul_comm]

end Decimal

end Lox
