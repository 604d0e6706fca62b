import Mathlib.Data.Nat.Bitwise
import Mathlib.Tactic.Ring
import Mathlib.Tactic.Linarith

/-!
# Unsigned machine words over the naturals

Values of fixed-width unsigned types are natural numbers; every operation that
can leave the range of its type is followed by an explicit reduction.  The
masks used to align an address are stated as the source writes them, and the
lemmas below turn them into divisions.
-/

namespace GeexOS.Words

/-- Reduction of a result to a 32-bit unsigned object. -/
def u32 (value : ℕ) : ℕ := value % 2 ^ 32

/-- Reduction of a result to a 64-bit unsigned object. -/
def u64 (value : ℕ) : ℕ := value % 2 ^ 64

/-- Subtraction of 32-bit unsigned objects, with wrap-around. -/
def sub32 (left right : ℕ) : ℕ := u32 (left + (2 ^ 32 - u32 right))

/-- Subtraction of 64-bit unsigned objects, with wrap-around. -/
def sub64 (left right : ℕ) : ℕ := u64 (left + (2 ^ 64 - u64 right))

theorem u32_lt (value : ℕ) : u32 value < 2 ^ 32 :=
  Nat.mod_lt _ (by norm_num)

theorem u32_of_lt {value : ℕ} (hvalue : value < 2 ^ 32) : u32 value = value :=
  Nat.mod_eq_of_lt hvalue

/-- A sum that wraps around once. -/
theorem u32_of_le {value : ℕ} (hlow : 2 ^ 32 ≤ value) (hhigh : value < 2 ^ 33) :
    u32 value = value - 2 ^ 32 := by
  simp only [u32]
  omega

theorem u64_of_lt {value : ℕ} (hvalue : value < 2 ^ 64) : u64 value = value :=
  Nat.mod_eq_of_lt hvalue

theorem sub32_lt (left right : ℕ) : sub32 left right < 2 ^ 32 :=
  u32_lt _

theorem sub32_of_le {left right : ℕ} (hleft : left < 2 ^ 32)
    (hle : right ≤ left) : sub32 left right = left - right := by
  simp only [sub32, u32]
  omega

theorem sub64_of_le {left right : ℕ} (hleft : left < 2 ^ 64)
    (hle : right ≤ left) : sub64 left right = left - right := by
  simp only [sub64, u64]
  omega

/-- Clearing the low `k` bits of a `w`-bit word with the mask `2^w - 2^k`
rounds it down to a multiple of `2^k`. -/
theorem land_mask {value k w : ℕ} (hvalue : value < 2 ^ w) (hk : k ≤ w) :
    value &&& (2 ^ w - 2 ^ k) = value / 2 ^ k * 2 ^ k := by
  have hmask : 2 ^ w - 2 ^ k = (2 ^ (w - k) - 1) <<< k := by
    rw [Nat.shiftLeft_eq, Nat.sub_mul, ← pow_add]
    congr 2
    · omega
    · simp
  have hdown : value / 2 ^ k * 2 ^ k = (value >>> k) <<< k := by
    rw [Nat.shiftLeft_eq, Nat.shiftRight_eq_div_pow]
  rw [hmask, hdown]
  apply Nat.eq_of_testBit_eq
  intro i
  simp only [Nat.testBit_and, Nat.testBit_shiftLeft, Nat.testBit_shiftRight,
    Nat.testBit_two_pow_sub_one]
  by_cases hik : k ≤ i
  · have hindex : k + (i - k) = i := by omega
    by_cases hiw : i < w
    · have hlow : i - k < w - k := by omega
      simp [hindex, hik, hlow]
    · have hzero : value.testBit i = false := by
        apply Nat.testBit_lt_two_pow
        calc value < 2 ^ w := hvalue
          _ ≤ 2 ^ i := Nat.pow_le_pow_right (by omega) (by omega)
      simp [hindex, hzero]
  · simp [hik]

end GeexOS.Words
