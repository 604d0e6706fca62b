import Mathlib.Data.Int.Basic
import GeexOS.Library.Halting
import GeexOS.Library.LongDivision
import GeexOS.Library.Words

/-!
# 64-bit division on the 32-bit machine

The compiler turns a division of 64-bit integers into a call of the routines of
`math_support.c`.  Kernel and loader are linked with copies of the file that differ
in what they include only.
-/

namespace GeexOS.MathSupport

open GeexOS.Halting
open GeexOS.LongDivision
open GeexOS.Words

/-- Conversion to `int64_t`. -/
def int64 (value : ℤ) : ℤ := (value + 2 ^ 63) % 2 ^ 64 - 2 ^ 63

/-- Conversion to `uint64_t`. -/
def uint64 (value : ℤ) : ℕ := (value % 2 ^ 64).toNat

/-- The objects the loops of `__udivmoddi4` work on. -/
structure Registers where
  num : ℕ
  den : ℕ
  quot : ℕ
  qbit : ℕ
  deriving DecidableEq, Repr

def Registers.entry (num den : ℕ) : Registers := ⟨num, den, 0, 1⟩

def justifyRound (registers : Registers) : Registers :=
  { registers with
    den := u64 (registers.den <<< 1)
    qbit := u64 (registers.qbit <<< 1) }

/-- Left-justify denominator and count shift. -/
def justifyLoop : (fuel : ℕ) → Registers → Outcome Registers
  | 0, _ => .error .diverges
  | fuel + 1, registers =>
      if 0 ≤ int64 registers.den then justifyLoop fuel (justifyRound registers)
      else .ok registers

def divideRound (registers : Registers) : Registers :=
  let registers :=
    if registers.den ≤ registers.num then
      { registers with
        num := sub64 registers.num registers.den
        quot := u64 (registers.quot + registers.qbit) }
    else registers
  { registers with den := registers.den >>> 1, qbit := registers.qbit >>> 1 }

/-- `while (qbit)`. -/
def divideLoop : (fuel : ℕ) → Registers → Outcome Registers
  | 0, _ => .error .diverges
  | fuel + 1, registers =>
      if registers.qbit ≠ 0 then divideLoop fuel (divideRound registers) else .ok registers

/-- The value returned, and the one stored through `rem_p` by a caller that passes it. -/
structure QuotRem where
  quot : ℕ
  rem : ℕ
  deriving DecidableEq, Repr

/-- `__udivmoddi4`.  A zero denominator is divided by, which the processor refuses. -/
def udivmoddi4 (fuel num den : ℕ) : Outcome QuotRem :=
  if den = 0 then .error .fault
  else do
    let registers ← justifyLoop fuel (Registers.entry num den)
    let registers ← divideLoop fuel registers
    .ok ⟨registers.quot, registers.num⟩

/-- `__umoddi3`. -/
def umoddi3 (fuel num den : ℕ) : Outcome ℕ := do
  let result ← udivmoddi4 fuel num den
  .ok result.rem

/-- `__udivdi3`. -/
def udivdi3 (fuel num den : ℕ) : Outcome ℕ := do
  let result ← udivmoddi4 fuel num den
  .ok result.quot

/-! ## The signed routines -/

/-- Operands without their signs, and the flag that both signed routines keep of them. -/
structure Unsigned where
  num : ℤ
  den : ℤ
  minus : Bool
  deriving DecidableEq, Repr

/-- What `__divdi3` and `__moddi3` begin with. -/
def stripSigns (num den : ℤ) : Unsigned :=
  let operands : Unsigned := ⟨num, den, false⟩
  let operands :=
    if operands.num < 0 then { operands with num := int64 (-operands.num), minus := true }
    else operands
  if operands.den < 0 then
    { operands with den := int64 (-operands.den), minus := operands.minus ^^ true }
  else operands

/-- What they end with. -/
def applySign (minus : Bool) (v : ℤ) : ℤ :=
  if minus then int64 (-v) else v

/-- `__divdi3`. -/
def divdi3 (fuel : ℕ) (num den : ℤ) : Outcome ℤ := do
  let operands := stripSigns num den
  let result ← udivmoddi4 fuel (uint64 operands.num) (uint64 operands.den)
  .ok (applySign operands.minus (int64 result.quot))

/-- `__moddi3`. -/
def moddi3 (fuel : ℕ) (num den : ℤ) : Outcome ℤ := do
  let operands := stripSigns num den
  let result ← udivmoddi4 fuel (uint64 operands.num) (uint64 operands.den)
  .ok (applySign operands.minus (int64 result.rem))

/-! ## Words -/

theorem int64_nonneg_iff {value : ℕ} (hvalue : value < 2 ^ 64) :
    0 ≤ int64 value ↔ value < 2 ^ 63 := by
  simp only [int64]
  omega

theorem shiftLeft_one (value : ℕ) : value <<< 1 = value * 2 := by
  rw [Nat.shiftLeft_eq, pow_one]

theorem shiftRight_one (value : ℕ) : value >>> 1 = value / 2 := by
  rw [Nat.shiftRight_eq_div_pow, pow_one]

/-! ## Left-justification -/

variable {num den shift fuel : ℕ}

theorem justifyLoop_of_clear {registers : Registers} (hclear : registers.den < 2 ^ 63) :
    justifyLoop (fuel + 1) registers = justifyLoop fuel (justifyRound registers) := by
  rw [justifyLoop, if_pos]
  exact (int64_nonneg_iff (by omega)).mpr hclear

theorem justifyLoop_of_set {registers : Registers} (hset : 2 ^ 63 ≤ registers.den)
    (hlt : registers.den < 2 ^ 64) : justifyLoop (fuel + 1) registers = .ok registers := by
  rw [justifyLoop, if_neg]
  exact fun hnonneg => absurd ((int64_nonneg_iff hlt).mp hnonneg) (by omega)

theorem justifyRound_shifted {i quot : ℕ} (hden : den * 2 ^ i < 2 ^ 63) (hi : i < 63) :
    justifyRound ⟨num, den * 2 ^ i, quot, 2 ^ i⟩ =
      ⟨num, den * 2 ^ (i + 1), quot, 2 ^ (i + 1)⟩ := by
  have hqbit : 2 ^ i < 2 ^ 63 := Nat.pow_lt_pow_right one_lt_two hi
  simp only [justifyRound, shiftLeft_one]
  rw [u64_of_lt (by omega), u64_of_lt (by omega), pow_succ, Nat.mul_assoc]

/-- The loop shifts until the highest bit of the denominator is at the top. -/
theorem justifyLoop_shifted {i quot : ℕ} (hset : 2 ^ 63 ≤ den * 2 ^ shift)
    (hlt : den * 2 ^ shift < 2 ^ 64) (hshift : shift ≤ 63) (hi : i ≤ shift)
    (hfuel : shift - i < fuel) :
    justifyLoop fuel ⟨num, den * 2 ^ i, quot, 2 ^ i⟩ =
      .ok ⟨num, den * 2 ^ shift, quot, 2 ^ shift⟩ := by
  obtain ⟨fuel, rfl⟩ := Nat.exists_eq_succ_of_ne_zero (Nat.ne_zero_of_lt hfuel)
  induction hrest : shift - i generalizing i fuel with
  | zero =>
      obtain rfl : i = shift := by omega
      exact justifyLoop_of_set hset hlt
  | succ rest ih =>
      have hclear : den * 2 ^ i < 2 ^ 63 := by
        have hdouble : den * 2 ^ i * 2 ≤ den * 2 ^ shift := by
          rw [Nat.mul_assoc, ← pow_succ]
          exact Nat.mul_le_mul_left _ (Nat.pow_le_pow_right two_pos (by omega))
        omega
      rw [Nat.succ_eq_add_one, justifyLoop_of_clear hclear,
        justifyRound_shifted hclear (by omega)]
      obtain ⟨fuel, rfl⟩ := Nat.exists_eq_succ_of_ne_zero (show fuel ≠ 0 by omega)
      exact ih (by omega) fuel (by omega) (by omega)

/-! ## Division -/

/-- The objects when `bits` bits of the quotient are still to be found. -/
structure Working (dividend divisor bits : ℕ) (registers : Registers) : Prop where
  division : Division dividend divisor bits registers.quot registers.num
  den : registers.den = divisor * 2 ^ bits / 2
  qbit : registers.qbit = 2 ^ bits / 2

variable {dividend divisor bits : ℕ} {registers start : Registers}

namespace Working

theorem den_succ (hworking : Working dividend divisor (bits + 1) registers) :
    registers.den = divisor * 2 ^ bits := by
  rw [hworking.den, pow_succ, ← Nat.mul_assoc, Nat.mul_div_cancel _ two_pos]

theorem qbit_succ (hworking : Working dividend divisor (bits + 1) registers) :
    registers.qbit = 2 ^ bits := by
  rw [hworking.qbit, pow_succ, Nat.mul_div_cancel _ two_pos]

theorem qbit_zero (hworking : Working dividend divisor 0 registers) : registers.qbit = 0 :=
  hworking.qbit

theorem num_le (hworking : Working dividend divisor bits registers) :
    registers.num ≤ dividend := by
  rw [hworking.division.split]
  exact Nat.le_add_left _ _

/-- No bit is set that would carry out of the quotient. -/
theorem add_lt (hworking : Working dividend divisor (bits + 1) registers) (hpos : 0 < divisor)
    (hdividend : dividend < 2 ^ 64) (hle : registers.den ≤ registers.num) :
    registers.quot + registers.qbit < 2 ^ 64 := by
  rw [hworking.qbit_succ]
  rw [hworking.den_succ] at hle
  exact Nat.lt_of_le_of_lt (hworking.division.add_le hpos hle) hdividend

/-- Every round finds one bit. -/
theorem divideRound (hworking : Working dividend divisor (bits + 1) registers)
    (hpos : 0 < divisor) (hdividend : dividend < 2 ^ 64) :
    Working dividend divisor bits (divideRound registers) := by
  have hden := hworking.den_succ
  have hqbit := hworking.qbit_succ
  have hnum := hworking.num_le
  by_cases hle : registers.den ≤ registers.num
  · have hadd := hworking.add_lt hpos hdividend hle
    simp only [MathSupport.divideRound, if_pos hle, shiftRight_one]
    refine ⟨?_, by rw [hden], by rw [hqbit]⟩
    rw [u64_of_lt hadd, sub64_of_le (by omega) hle, hden, hqbit]
    exact hworking.division.take (by rw [← hden]; exact hle)
  · simp only [MathSupport.divideRound, if_neg hle, shiftRight_one]
    refine ⟨?_, by rw [hden], by rw [hqbit]⟩
    exact hworking.division.skip (by rw [← hden]; exact not_le.mp hle)

/-- The loop runs until every bit is found. -/
theorem divideLoop (hworking : Working dividend divisor bits registers) (hpos : 0 < divisor)
    (hdividend : dividend < 2 ^ 64) (hfuel : bits < fuel) :
    ∃ finished, divideLoop fuel registers = .ok finished ∧
      Working dividend divisor 0 finished := by
  obtain ⟨fuel, rfl⟩ := Nat.exists_eq_succ_of_ne_zero (Nat.ne_zero_of_lt hfuel)
  induction bits generalizing registers fuel with
  | zero =>
      refine ⟨registers, ?_, hworking⟩
      rw [MathSupport.divideLoop, if_neg (not_not.mpr hworking.qbit_zero)]
  | succ bits ih =>
      have hgoing : registers.qbit ≠ 0 := by
        rw [hworking.qbit_succ]
        exact (Nat.two_pow_pos bits).ne'
      obtain ⟨fuel, rfl⟩ := Nat.exists_eq_succ_of_ne_zero (show fuel ≠ 0 by omega)
      rw [MathSupport.divideLoop, if_pos hgoing]
      exact ih (hworking.divideRound hpos hdividend) fuel (by omega)

end Working

/-- The objects each time the condition of the second loop is evaluated. -/
inductive LoopState (start : Registers) : Registers → Prop where
  | entry : LoopState start start
  | round {registers : Registers} (hstate : LoopState start registers)
      (hgoing : registers.qbit ≠ 0) : LoopState start (divideRound registers)

theorem LoopState.working (hstate : LoopState start registers)
    (hstart : Working dividend divisor bits start) (hpos : 0 < divisor)
    (hdividend : dividend < 2 ^ 64) : ∃ rest, Working dividend divisor rest registers := by
  induction hstate with
  | entry => exact ⟨bits, hstart⟩
  | round _ hgoing ih =>
      obtain ⟨rest, hworking⟩ := ih
      cases rest with
      | zero => exact absurd hworking.qbit_zero hgoing
      | succ rest => exact ⟨rest, hworking.divideRound hpos hdividend⟩

/-- The first loop hands over a division of which no bit is found yet. -/
theorem exists_justified_working (hnum : num < 2 ^ 64) (hden : den < 2 ^ 64) (hne : den ≠ 0)
    (hfuel : 64 ≤ fuel) :
    ∃ start bits, justifyLoop fuel (Registers.entry num den) = .ok start ∧ bits ≤ 64 ∧
      Working num den bits start := by
  obtain ⟨shift, hshift, hset, hlt⟩ := exists_justified 63 (Nat.pos_of_ne_zero hne) hden
  refine ⟨⟨num, den * 2 ^ shift, 0, 2 ^ shift⟩, shift + 1, ?_, by omega, ?_, ?_, ?_⟩
  · have hloop : justifyLoop fuel ⟨num, den * 2 ^ 0, 0, 2 ^ 0⟩ =
        .ok ⟨num, den * 2 ^ shift, 0, 2 ^ shift⟩ :=
      justifyLoop_shifted hset hlt hshift (Nat.zero_le shift) (by omega)
    rwa [pow_zero, Nat.mul_one] at hloop
  · refine Division.start ?_
    rw [pow_succ, ← Nat.mul_assoc]
    omega
  · rw [pow_succ, ← Nat.mul_assoc, Nat.mul_div_cancel _ two_pos]
  · rw [pow_succ, Nat.mul_div_cancel _ two_pos]

theorem udivmoddi4_eq_ok (hnum : num < 2 ^ 64) (hden : den < 2 ^ 64) (hne : den ≠ 0)
    (hfuel : 65 ≤ fuel) : udivmoddi4 fuel num den = .ok ⟨num / den, num % den⟩ := by
  obtain ⟨start, bits, hjustify, hbits, hworking⟩ :=
    exists_justified_working hnum hden hne (show 64 ≤ fuel by omega)
  obtain ⟨finished, hdivide, hfinished⟩ :=
    hworking.divideLoop (Nat.pos_of_ne_zero hne) hnum (show bits < fuel by omega)
  obtain ⟨hquot, hrem⟩ := hfinished.division.finish
  rw [udivmoddi4, if_neg hne, hjustify, ok_bind, hdivide, ok_bind, hquot, hrem]

theorem udivdi3_eq_ok (hnum : num < 2 ^ 64) (hden : den < 2 ^ 64) (hne : den ≠ 0)
    (hfuel : 65 ≤ fuel) : udivdi3 fuel num den = .ok (num / den) := by
  rw [udivdi3, udivmoddi4_eq_ok hnum hden hne hfuel, ok_bind]

theorem umoddi3_eq_ok (hnum : num < 2 ^ 64) (hden : den < 2 ^ 64) (hne : den ≠ 0)
    (hfuel : 65 ≤ fuel) : umoddi3 fuel num den = .ok (num % den) := by
  rw [umoddi3, udivmoddi4_eq_ok hnum hden hne hfuel, ok_bind]

/-- The division of unsigned numbers: both loops end, quotient and remainder are those of
the division law, and wherever a bit is added to the quotient the sum is a 64-bit
number. -/
theorem udivmoddi4_divides (hnum : num < 2 ^ 64) (hden : den < 2 ^ 64) (hne : den ≠ 0)
    (hfuel : 65 ≤ fuel) :
    ∃ start result, justifyLoop fuel (Registers.entry num den) = .ok start ∧
      udivmoddi4 fuel num den = .ok result ∧
      num = result.quot * den + result.rem ∧ result.rem < den ∧
      udivdi3 fuel num den = .ok result.quot ∧ umoddi3 fuel num den = .ok result.rem ∧
      ∀ registers, LoopState start registers → registers.qbit ≠ 0 →
        registers.den ≤ registers.num → registers.quot + registers.qbit < 2 ^ 64 := by
  have hpos := Nat.pos_of_ne_zero hne
  obtain ⟨start, bits, hjustify, -, hstart⟩ :=
    exists_justified_working hnum hden hne (show 64 ≤ fuel by omega)
  refine ⟨start, ⟨num / den, num % den⟩, hjustify, udivmoddi4_eq_ok hnum hden hne hfuel,
    (Nat.div_add_mod' num den).symm, Nat.mod_lt num hpos, udivdi3_eq_ok hnum hden hne hfuel,
    umoddi3_eq_ok hnum hden hne hfuel, ?_⟩
  intro registers hstate hgoing hle
  obtain ⟨rest, hworking⟩ := hstate.working hstart hpos hnum
  cases rest with
  | zero => exact absurd hworking.qbit_zero hgoing
  | succ rest => exact hworking.add_lt hpos hnum hle

/-- A denominator with its highest bit set, and the largest numerator. -/
theorem udivmoddi4_divides_top :
    ∃ start result,
      justifyLoop 65 (Registers.entry (2 ^ 64 - 1) (2 ^ 63 + 1)) = .ok start ∧
      udivmoddi4 65 (2 ^ 64 - 1) (2 ^ 63 + 1) = .ok result ∧
      2 ^ 64 - 1 = result.quot * (2 ^ 63 + 1) + result.rem ∧ result.rem < 2 ^ 63 + 1 ∧
      udivdi3 65 (2 ^ 64 - 1) (2 ^ 63 + 1) = .ok result.quot ∧
      umoddi3 65 (2 ^ 64 - 1) (2 ^ 63 + 1) = .ok result.rem ∧
      ∀ registers, LoopState start registers → registers.qbit ≠ 0 →
        registers.den ≤ registers.num → registers.quot + registers.qbit < 2 ^ 64 :=
  udivmoddi4_divides (by norm_num) (by norm_num) (by norm_num) le_rfl

/-! ## Signs -/

section Signed

variable {num den : ℤ}

/-- The values of an `int64_t`. -/
structure IsInt64 (value : ℤ) : Prop where
  low : -2 ^ 63 ≤ value
  high : value < 2 ^ 63

/-- The flag of the signed routines: one operand is negative and the other is not. -/
theorem stripSigns_minus (num den : ℤ) :
    (stripSigns num den).minus = (decide (num < 0) ^^ decide (den < 0)) := by
  by_cases hnum : num < 0 <;> by_cases hden : den < 0 <;> simp [stripSigns, hnum, hden]

theorem uint64_int64_neg {value : ℤ} (hvalue : IsInt64 value) (hneg : value < 0) :
    uint64 (int64 (-value)) = value.natAbs := by
  have hlow := hvalue.low
  simp only [uint64, int64]
  omega

theorem uint64_of_nonneg {value : ℤ} (hvalue : IsInt64 value) (hnonneg : ¬ value < 0) :
    uint64 value = value.natAbs := by
  have hhigh := hvalue.high
  simp only [uint64]
  omega

/-- Without their signs the operands are the magnitudes, that of the lowest number
included. -/
theorem stripSigns_magnitudes (hnum : IsInt64 num) (hden : IsInt64 den) :
    uint64 (stripSigns num den).num = num.natAbs ∧
      uint64 (stripSigns num den).den = den.natAbs := by
  by_cases hn : num < 0 <;> by_cases hd : den < 0 <;>
    simp only [stripSigns, hn, hd, if_true, if_false]
  · exact ⟨uint64_int64_neg hnum hn, uint64_int64_neg hden hd⟩
  · exact ⟨uint64_int64_neg hnum hn, uint64_of_nonneg hden hd⟩
  · exact ⟨uint64_of_nonneg hnum hn, uint64_int64_neg hden hd⟩
  · exact ⟨uint64_of_nonneg hnum hn, uint64_of_nonneg hden hd⟩

theorem udivmoddi4_stripped (hnum : IsInt64 num) (hden : IsInt64 den) (hne : den ≠ 0)
    (hfuel : 65 ≤ fuel) :
    udivmoddi4 fuel (uint64 (stripSigns num den).num) (uint64 (stripSigns num den).den) =
      .ok ⟨num.natAbs / den.natAbs, num.natAbs % den.natAbs⟩ := by
  have hnum_low := hnum.low
  have hnum_high := hnum.high
  have hden_low := hden.low
  have hden_high := hden.high
  obtain ⟨hnum_eq, hden_eq⟩ := stripSigns_magnitudes hnum hden
  rw [hnum_eq, hden_eq]
  exact udivmoddi4_eq_ok (by omega) (by omega) (by omega) hfuel

/-- A result whose magnitude the signed type has gets the sign of the flag. -/
theorem applySign_eq {minus : Bool} {magnitude : ℕ} (hle : magnitude ≤ 2 ^ 63)
    (hlt : minus = false → magnitude < 2 ^ 63) :
    applySign minus (int64 magnitude) = if minus then -(magnitude : ℤ) else magnitude := by
  cases minus with
  | true =>
      simp only [applySign, int64, if_true]
      omega
  | false =>
      have hlt := hlt rfl
      simp only [applySign, int64, Bool.false_eq_true, if_false]
      omega

theorem eq_neg_natAbs {value : ℤ} (hneg : value < 0) : value = -(value.natAbs : ℤ) := by
  omega

theorem eq_natAbs {value : ℤ} (hnonneg : ¬ value < 0) : value = (value.natAbs : ℤ) := by
  omega

/-- Truncating division, from the magnitudes and the signs. -/
theorem tdiv_eq_signed (num den : ℤ) :
    num.tdiv den = if decide (num < 0) ^^ decide (den < 0) then
      -((num.natAbs / den.natAbs : ℕ) : ℤ) else ((num.natAbs / den.natAbs : ℕ) : ℤ) := by
  rw [Int.ofNat_tdiv]
  by_cases hnum : num < 0 <;> by_cases hden : den < 0 <;> simp only [hnum, hden]
  · conv_lhs => rw [eq_neg_natAbs hnum, eq_neg_natAbs hden, Int.neg_tdiv_neg]
    rfl
  · conv_lhs => rw [eq_neg_natAbs hnum, eq_natAbs hden, Int.neg_tdiv]
    rfl
  · conv_lhs => rw [eq_natAbs hnum, eq_neg_natAbs hden, Int.tdiv_neg]
    rfl
  · conv_lhs => rw [eq_natAbs hnum, eq_natAbs hden]
    rfl

/-- Its remainder, from the magnitudes and the sign of the numerator alone. -/
theorem tmod_eq_signed (num den : ℤ) :
    num.tmod den = if num < 0 then -((num.natAbs % den.natAbs : ℕ) : ℤ)
      else ((num.natAbs % den.natAbs : ℕ) : ℤ) := by
  have hmagnitude : num.tmod den = num.tmod den.natAbs := by
    by_cases hden : den < 0
    · conv_lhs => rw [eq_neg_natAbs hden, Int.tmod_neg]
    · conv_lhs => rw [eq_natAbs hden]
  rw [hmagnitude, Int.ofNat_tmod]
  by_cases hnum : num < 0
  · rw [if_pos hnum]
    conv_lhs => rw [eq_neg_natAbs hnum, Int.neg_tmod]
  · rw [if_neg hnum]
    conv_lhs => rw [eq_natAbs hnum]

/-- The one quotient of positive sign that is too large is that of the lowest number
by -1. -/
theorem natAbs_div_lt (hnum : IsInt64 num) (hne : den ≠ 0)
    (hfits : ¬ (num = -2 ^ 63 ∧ den = -1))
    (hsame : (decide (num < 0) ^^ decide (den < 0)) = false) :
    num.natAbs / den.natAbs < 2 ^ 63 := by
  have hlow := hnum.low
  have hhigh := hnum.high
  by_cases hone : den.natAbs = 1
  · rw [hone, Nat.div_one]
    by_contra hlarge
    have hlowest : num = -2 ^ 63 := by omega
    have hsign : decide (num < 0) = decide (den < 0) := by simpa using hsame
    have hden : den < 0 := (decide_eq_decide.mp hsign).mp (by omega)
    exact hfits ⟨hlowest, by omega⟩
  · calc num.natAbs / den.natAbs ≤ num.natAbs / 2 := Nat.div_le_div_left (by omega) two_pos
      _ < 2 ^ 63 := by omega

/-- `__divdi3` truncates toward zero. -/
theorem divdi3_eq_ok (hnum : IsInt64 num) (hden : IsInt64 den) (hne : den ≠ 0)
    (hfits : ¬ (num = -2 ^ 63 ∧ den = -1)) (hfuel : 65 ≤ fuel) :
    divdi3 fuel num den = .ok (num.tdiv den) := by
  have hle : num.natAbs / den.natAbs ≤ 2 ^ 63 := by
    have hlow := hnum.low
    have hhigh := hnum.high
    calc num.natAbs / den.natAbs ≤ num.natAbs := Nat.div_le_self _ _
      _ ≤ 2 ^ 63 := by omega
  rw [divdi3, udivmoddi4_stripped hnum hden hne hfuel, ok_bind, stripSigns_minus,
    applySign_eq hle (natAbs_div_lt hnum hne hfits), tdiv_eq_signed]

/-- `__moddi3` turns the sign of the remainder with that of the denominator. -/
theorem moddi3_eq_ok (hnum : IsInt64 num) (hden : IsInt64 den) (hne : den ≠ 0)
    (hfuel : 65 ≤ fuel) :
    moddi3 fuel num den = .ok (if den < 0 then -num.tmod den else num.tmod den) := by
  have hlt : num.natAbs % den.natAbs < 2 ^ 63 := by
    have hden_low := hden.low
    have hden_high := hden.high
    calc num.natAbs % den.natAbs < den.natAbs := Nat.mod_lt _ (by omega)
      _ ≤ 2 ^ 63 := by omega
  rw [moddi3, udivmoddi4_stripped hnum hden hne hfuel, ok_bind, stripSigns_minus,
    applySign_eq hlt.le fun _ => hlt, tmod_eq_signed]
  by_cases hn : num < 0 <;> by_cases hd : den < 0 <;> simp [hn, hd]

/-- The law of signed division in C. -/
structure SignedDivision (num den quot rem : ℤ) : Prop where
  truncated : quot = num.tdiv den
  law : num = quot * den + rem
  sign : rem = 0 ∨ rem.sign = num.sign

theorem signedDivision_iff {rem : ℤ} :
    SignedDivision num den (num.tdiv den) rem ↔ rem = num.tmod den := by
  constructor
  · intro hdivision
    have hlaw := hdivision.law
    have hmod := Int.tdiv_mul_add_tmod num den
    omega
  · rintro rfl
    refine ⟨rfl, (Int.tdiv_mul_add_tmod num den).symm, ?_⟩
    rcases Nat.eq_zero_or_pos (num.natAbs % den.natAbs) with hzero | hpos
    · left
      rw [tmod_eq_signed, hzero]
      simp
    · right
      have hnum_pos : 0 < num.natAbs := Nat.lt_of_lt_of_le hpos (Nat.mod_le _ _)
      rw [tmod_eq_signed]
      by_cases hnum : num < 0
      · rw [if_pos hnum, Int.sign_eq_neg_one_of_neg hnum, Int.sign_eq_neg_one_of_neg (by omega)]
      · rw [if_neg hnum, Int.sign_eq_one_of_pos (by omega), Int.sign_eq_one_of_pos (by omega)]

/-- The signed routines obey the law exactly for a positive denominator and for one that
leaves no remainder. -/
theorem signed_division_iff (hnum : IsInt64 num) (hden : IsInt64 den) (hne : den ≠ 0)
    (hfits : ¬ (num = -2 ^ 63 ∧ den = -1)) (hfuel : 65 ≤ fuel) :
    (∃ quot rem, divdi3 fuel num den = .ok quot ∧ moddi3 fuel num den = .ok rem ∧
      SignedDivision num den quot rem) ↔ 0 < den ∨ den ∣ num := by
  rw [divdi3_eq_ok hnum hden hne hfits hfuel, moddi3_eq_ok hnum hden hne hfuel]
  have hexists : (∃ quot rem, (.ok (num.tdiv den) : Outcome ℤ) = .ok quot ∧
      (.ok (if den < 0 then -num.tmod den else num.tmod den) : Outcome ℤ) = .ok rem ∧
      SignedDivision num den quot rem) ↔
      (if den < 0 then -num.tmod den else num.tmod den) = num.tmod den := by
    rw [← signedDivision_iff]
    constructor
    · rintro ⟨quot, rem, hquot, hrem, hdivision⟩
      obtain rfl := Except.ok.inj hquot
      obtain rfl := Except.ok.inj hrem
      exact hdivision
    · exact fun hdivision => ⟨_, _, rfl, rfl, hdivision⟩
  rw [hexists, Int.dvd_iff_tmod_eq_zero]
  by_cases hneg : den < 0
  · rw [if_pos hneg]
    omega
  · rw [if_neg hneg]
    simp only [true_iff]
    left
    omega

theorem signed_division_iff_lowest :
    (∃ quot rem, divdi3 65 (-2 ^ 63) 10 = .ok quot ∧ moddi3 65 (-2 ^ 63) 10 = .ok rem ∧
      SignedDivision (-2 ^ 63) 10 quot rem) ↔ (0 : ℤ) < 10 ∨ (10 : ℤ) ∣ -2 ^ 63 :=
  signed_division_iff ⟨by norm_num, by norm_num⟩ ⟨by norm_num, by norm_num⟩ (by norm_num)
    (by norm_num) le_rfl

/-- 7 divided by -2: the quotient is -3, and the remainder comes out as -1 instead of 1. -/
theorem not_signed_division_seven :
    ¬ ∃ quot rem, divdi3 65 7 (-2) = .ok quot ∧ moddi3 65 7 (-2) = .ok rem ∧
      SignedDivision 7 (-2) quot rem := by
  rintro ⟨quot, rem, hquot, hrem, hdivision⟩
  have hseven : IsInt64 7 := ⟨by norm_num, by norm_num⟩
  have htwo : IsInt64 (-2) := ⟨by norm_num, by norm_num⟩
  have hquot_eq : divdi3 65 7 (-2) = .ok (-3) :=
    divdi3_eq_ok hseven htwo (by norm_num) (by norm_num) le_rfl
  have hrem_eq : moddi3 65 7 (-2) = .ok (-1) :=
    moddi3_eq_ok hseven htwo (by norm_num) le_rfl
  obtain rfl := Except.ok.inj (hquot_eq.symm.trans hquot)
  obtain rfl := Except.ok.inj (hrem_eq.symm.trans hrem)
  have hlaw := hdivision.law
  omega

end Signed

end GeexOS.MathSupport
