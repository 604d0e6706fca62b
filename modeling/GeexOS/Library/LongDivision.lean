import Mathlib.Data.Nat.Log
import Mathlib.Tactic.Ring
import Mathlib.Tactic.Common

/-!
# Binary long division

The quotient is found bit by bit from the highest one down.  Between two bits the
dividend is split between the quotient found so far and the remainder, and the
remainder is smaller than the divisor at the weight of the bit found last.
-/

namespace GeexOS.LongDivision

variable {dividend divisor bits quotient remainder : ℕ}

/-- A division of which the lowest `bits` bits of the quotient are still to be found. -/
structure Division (dividend divisor bits quotient remainder : ℕ) : Prop where
  split : dividend = quotient * divisor + remainder
  below : remainder < divisor * 2 ^ bits

theorem Division.start (hbelow : dividend < divisor * 2 ^ bits) :
    Division dividend divisor bits 0 dividend :=
  ⟨by rw [Nat.zero_mul, Nat.zero_add], hbelow⟩

/-- The next bit is set: the divisor at its weight goes into the remainder. -/
theorem Division.take (hdivision : Division dividend divisor (bits + 1) quotient remainder)
    (hle : divisor * 2 ^ bits ≤ remainder) :
    Division dividend divisor bits (quotient + 2 ^ bits) (remainder - divisor * 2 ^ bits) where
  split := by
    have hsplit := hdivision.split
    have hquotient : (quotient + 2 ^ bits) * divisor =
        quotient * divisor + divisor * 2 ^ bits := by ring
    omega
  below := by
    have hbelow := hdivision.below
    have hdouble : divisor * 2 ^ (bits + 1) = divisor * 2 ^ bits + divisor * 2 ^ bits := by ring
    omega

/-- The next bit is clear. -/
theorem Division.skip (hdivision : Division dividend divisor (bits + 1) quotient remainder)
    (hlt : remainder < divisor * 2 ^ bits) :
    Division dividend divisor bits quotient remainder :=
  ⟨hdivision.split, hlt⟩

/-- A quotient with a bit set that goes into the remainder is no larger than the dividend. -/
theorem Division.add_le (hdivision : Division dividend divisor (bits + 1) quotient remainder)
    (hpos : 0 < divisor) (hle : divisor * 2 ^ bits ≤ remainder) :
    quotient + 2 ^ bits ≤ dividend := by
  have hsplit := (hdivision.take hle).split
  calc quotient + 2 ^ bits ≤ (quotient + 2 ^ bits) * divisor :=
        Nat.le_mul_of_pos_right _ hpos
    _ ≤ dividend := by rw [hsplit]; exact Nat.le_add_right _ _

theorem Division.remainder_lt (hdivision : Division dividend divisor 0 quotient remainder) :
    remainder < divisor := by
  simpa using hdivision.below

/-- With every bit found, quotient and remainder are those of the division. -/
theorem Division.finish (hdivision : Division dividend divisor 0 quotient remainder) :
    quotient = dividend / divisor ∧ remainder = dividend % divisor := by
  have hlt := hdivision.remainder_lt
  have hsplit : remainder + divisor * quotient = dividend := by
    rw [hdivision.split]
    ring
  have hunique := (Nat.div_mod_unique (Nat.zero_lt_of_lt hlt)).mpr ⟨hsplit, hlt⟩
  exact ⟨hunique.1.symm, hunique.2.symm⟩

/-- The shift that brings the highest bit of a number to the top of a word. -/
theorem exists_justified (width : ℕ) (hpos : 0 < divisor) (hlt : divisor < 2 ^ (width + 1)) :
    ∃ shift ≤ width, 2 ^ width ≤ divisor * 2 ^ shift ∧ divisor * 2 ^ shift < 2 ^ (width + 1) := by
  have hlog : Nat.log 2 divisor ≤ width :=
    Nat.lt_succ_iff.mp (Nat.log_lt_of_lt_pow hpos.ne' hlt)
  refine ⟨width - Nat.log 2 divisor, Nat.sub_le _ _, ?_, ?_⟩
  · calc 2 ^ width = 2 ^ Nat.log 2 divisor * 2 ^ (width - Nat.log 2 divisor) := by
          rw [← pow_add, Nat.add_sub_cancel' hlog]
      _ ≤ divisor * 2 ^ (width - Nat.log 2 divisor) :=
          Nat.mul_le_mul_right _ (Nat.pow_log_le_self 2 hpos.ne')
  · have hbelow : divisor < 2 ^ (Nat.log 2 divisor + 1) :=
      Nat.lt_pow_succ_log_self one_lt_two divisor
    calc divisor * 2 ^ (width - Nat.log 2 divisor)
        < 2 ^ (Nat.log 2 divisor + 1) * 2 ^ (width - Nat.log 2 divisor) :=
          Nat.mul_lt_mul_of_pos_right hbelow (Nat.two_pow_pos _)
      _ = 2 ^ (width + 1) := by
          rw [← pow_add]
          congr 1
          omega

end GeexOS.LongDivision
