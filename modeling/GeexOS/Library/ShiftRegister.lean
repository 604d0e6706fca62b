import Mathlib.Algebra.CharP.Two
import Mathlib.Algebra.Field.ZMod
import Mathlib.Algebra.Polynomial.Div
import Mathlib.Data.List.GetD
import Mathlib.Data.ZMod.Basic
import Mathlib.RingTheory.Polynomial.Basic
import Mathlib.Tactic.LinearCombination

/-!
# Remainders in a shift register

A register of `w` bits is a polynomial over the field of two elements, with the
lowest bit as its highest coefficient.  A shift multiplies it by `X` modulo a
generator polynomial, so a register that messages are shifted through holds their
remainder.
-/

namespace GeexOS.ShiftRegister

open Polynomial

variable {w : ℕ}

/-- A shift by one place; the bit that leaves the register takes the generator along. -/
def shift (generator register : BitVec w) : BitVec w :=
  if register.getLsbD 0 then register >>> 1 ^^^ generator else register >>> 1

/-- Eight bits of a message go through the register, the lowest first. -/
def absorb (generator register : BitVec w) (byte : BitVec 8) : BitVec w :=
  (shift generator)^[8] (register ^^^ byte.setWidth w)

/-- The same with the shifts of all bytes kept in a table. -/
def absorbFromTable (table : BitVec 8 → BitVec w) (register : BitVec w) (byte : BitVec 8) :
    BitVec w :=
  table ((register ^^^ byte.setWidth w).setWidth 8) ^^^ register >>> 8

/-! ## Polynomials -/

noncomputable def coefficient (bit : Bool) : ZMod 2 := if bit then 1 else 0

/-- The polynomial of a register. -/
noncomputable def toPolynomial (register : BitVec w) : (ZMod 2)[X] :=
  ∑ i ∈ Finset.range w, C (coefficient (register.getLsbD i)) * X ^ (w - 1 - i)

/-- The generator polynomial, whose leading coefficient has no bit. -/
noncomputable def modulus (generator : BitVec w) : (ZMod 2)[X] := X ^ w + toPolynomial generator

/-- The polynomial of a message: its first bit is the highest coefficient. -/
noncomputable def messagePolynomial : List (BitVec 8) → (ZMod 2)[X] :=
  List.foldl (fun message byte => message * X ^ 8 + toPolynomial byte) 0

theorem coefficient_xor (left right : Bool) :
    coefficient (left ^^ right) = coefficient left + coefficient right := by
  cases left <;> cases right <;> decide +revert

theorem coefficient_injective {left right : Bool} (hsame : coefficient left = coefficient right) :
    left = right := by
  cases left <;> cases right <;> simp_all [coefficient]

theorem toPolynomial_xor (left right : BitVec w) :
    toPolynomial (left ^^^ right) = toPolynomial left + toPolynomial right := by
  rw [toPolynomial, toPolynomial, toPolynomial, ← Finset.sum_add_distrib]
  apply Finset.sum_congr rfl
  intro i _
  rw [BitVec.getLsbD_xor, coefficient_xor, C_add, add_mul]

theorem add_self_eq_zero (polynomial : (ZMod 2)[X]) : polynomial + polynomial = 0 :=
  CharTwo.add_self_eq_zero polynomial

theorem degree_toPolynomial_lt (register : BitVec w) : (toPolynomial register).degree < w := by
  rw [← mem_degreeLT, toPolynomial]
  apply Submodule.sum_mem
  intro i hi
  rw [mem_degreeLT]
  refine (degree_C_mul_X_pow_le _ _).trans_lt ?_
  have hlt : i < w := Finset.mem_range.mp hi
  exact_mod_cast (show w - 1 - i < w by omega)

theorem coeff_toPolynomial (register : BitVec w) (n : ℕ) :
    (toPolynomial register).coeff n =
      if n < w then coefficient (register.getLsbD (w - 1 - n)) else 0 := by
  rw [toPolynomial, finsetSum_coeff]
  split
  · next hn =>
      rw [Finset.sum_eq_single (w - 1 - n)]
      · rw [coeff_C_mul_X_pow, if_pos (by omega)]
      · intro other hother hne
        have hlt : other < w := Finset.mem_range.mp hother
        rw [coeff_C_mul_X_pow, if_neg (by omega)]
      · intro hnot
        exact absurd (Finset.mem_range.mpr (by omega)) hnot
  · next hn =>
      apply Finset.sum_eq_zero
      intro i hi
      have hlt : i < w := Finset.mem_range.mp hi
      rw [coeff_C_mul_X_pow, if_neg (by omega)]

theorem toPolynomial_injective : Function.Injective (toPolynomial (w := w)) := by
  intro left right hsame
  apply BitVec.eq_of_getLsbD_eq
  intro i hi
  have hcoeff := congrArg (fun polynomial => polynomial.coeff (w - 1 - i)) hsame
  have hback : w - 1 - (w - 1 - i) = i := by omega
  simp only [coeff_toPolynomial, hback, if_pos (show w - 1 - i < w by omega)] at hcoeff
  exact coefficient_injective hcoeff

theorem toPolynomial_zero : toPolynomial 0#w = 0 := by
  ext n
  rw [coeff_toPolynomial, BitVec.getLsbD_zero, coefficient, if_neg Bool.false_ne_true, ite_self,
    coeff_zero]

theorem monic_modulus (generator : BitVec w) : (modulus generator).Monic :=
  monic_X_pow_add (degree_toPolynomial_lt generator)

theorem degree_modulus (generator : BitVec w) : (modulus generator).degree = w := by
  have hlt : (toPolynomial generator).degree < (X ^ w : (ZMod 2)[X]).degree := by
    rw [degree_X_pow]
    exact degree_toPolynomial_lt generator
  rw [modulus, degree_add_eq_left_of_degree_lt hlt, degree_X_pow]

/-- A register is its own remainder. -/
theorem toPolynomial_modulus (generator register : BitVec w) :
    toPolynomial register %ₘ modulus generator = toPolynomial register := by
  rw [modByMonic_eq_self_iff (monic_modulus generator), degree_modulus]
  exact degree_toPolynomial_lt register

/-! ## Shifts -/

/-- A shift of clear bits is a product. -/
theorem toPolynomial_ushiftRight (register : BitVec w) {k : ℕ}
    (hclear : ∀ i < k, register.getLsbD i = false) :
    toPolynomial (register >>> k) = X ^ k * toPolynomial register := by
  ext n
  rw [coeff_X_pow_mul', coeff_toPolynomial, coeff_toPolynomial, BitVec.getLsbD_ushiftRight]
  have hbehind : ∀ i, ¬ i < w → register.getLsbD i = false := fun i hi =>
    BitVec.getLsbD_of_ge register i (not_lt.mp hi)
  by_cases hkn : k ≤ n
  · rw [if_pos hkn]
    by_cases hn : n < w
    · rw [if_pos hn, if_pos (show n - k < w by omega),
        show k + (w - 1 - n) = w - 1 - (n - k) by omega]
    · rw [if_neg hn]
      split
      · next hlow =>
          rw [hclear (w - 1 - (n - k)) (by omega), coefficient, if_neg Bool.false_ne_true]
      · rfl
  · rw [if_neg hkn]
    split
    · rw [hbehind _ (by omega), coefficient, if_neg Bool.false_ne_true]
    · rfl

theorem toPolynomial_setWidth {k : ℕ} (hk : k ≤ w) (bits : BitVec k) :
    toPolynomial (bits.setWidth w) = X ^ (w - k) * toPolynomial bits := by
  ext n
  rw [coeff_X_pow_mul', coeff_toPolynomial, coeff_toPolynomial, BitVec.getLsbD_setWidth]
  by_cases hn : n < w
  · rw [if_pos hn, decide_eq_true (show w - 1 - n < w by omega), Bool.true_and]
    by_cases hlow : w - k ≤ n
    · rw [if_pos hlow, if_pos (by omega), show k - 1 - (n - (w - k)) = w - 1 - n by omega]
    · rw [if_neg hlow, BitVec.getLsbD_of_ge bits _ (by omega), coefficient,
        if_neg Bool.false_ne_true]
  · rw [if_neg hn, if_neg (show ¬ n - (w - k) < k by omega), ite_self]

/-- A bit that leaves the register is a multiple of the generator polynomial. -/
theorem X_mul_toPolynomial_of_set (generator register : BitVec w)
    (hset : register.getLsbD 0 = true) :
    X * toPolynomial register =
      toPolynomial (register >>> 1 ^^^ generator) + modulus generator := by
  have hpos : 0 < w := by
    by_contra hzero
    rw [BitVec.getLsbD_of_ge register 0 (by omega)] at hset
    cases hset
  have hone : toPolynomial 1#w = X ^ (w - 1) := by
    ext n
    rw [coeff_toPolynomial, coeff_X_pow]
    by_cases hn : n = w - 1
    · rw [if_pos hn, if_pos (by omega), hn, Nat.sub_self, BitVec.getLsbD_one]
      simp [hpos, coefficient]
    · rw [if_neg hn]
      split
      · rw [BitVec.getLsbD_one, decide_eq_false (show ¬ (w - 1 - n = 0) by omega), Bool.and_false,
          coefficient, if_neg Bool.false_ne_true]
      · rfl
  have hclear : ∀ i < 1, (register ^^^ 1#w).getLsbD i = false := by
    intro i hi
    obtain rfl : i = 0 := by omega
    rw [BitVec.getLsbD_xor, hset, BitVec.getLsbD_one]
    simp [hpos]
  have hshift : (register ^^^ 1#w) >>> 1 = register >>> 1 := by
    apply BitVec.eq_of_getLsbD_eq
    intro i _
    rw [BitVec.getLsbD_ushiftRight, BitVec.getLsbD_ushiftRight, BitVec.getLsbD_xor,
      BitVec.getLsbD_one, decide_eq_false (show ¬ (1 + i = 0) by omega), Bool.and_false,
      Bool.xor_false]
  have hrest := toPolynomial_ushiftRight (register ^^^ 1#w) hclear
  rw [hshift, toPolynomial_xor, hone, pow_one, mul_add, ← pow_succ',
    Nat.sub_add_cancel hpos] at hrest
  rw [toPolynomial_xor, hrest, modulus]
  linear_combination -add_self_eq_zero (X ^ w) - add_self_eq_zero (toPolynomial generator)

/-- A shift is a multiplication by `X`. -/
theorem toPolynomial_shift (generator register : BitVec w) :
    toPolynomial (shift generator register) =
      (X * toPolynomial register) %ₘ modulus generator := by
  rw [shift]
  split
  · next hset =>
      rw [X_mul_toPolynomial_of_set generator register hset, add_modByMonic,
        toPolynomial_modulus, (modByMonic_eq_zero_iff_dvd (monic_modulus generator)).mpr dvd_rfl,
        add_zero]
  · next hclear =>
      have hlow : ∀ i < 1, register.getLsbD i = false := by
        intro i hi
        obtain rfl : i = 0 := by omega
        exact Bool.eq_false_iff.mpr hclear
      have hshift := toPolynomial_ushiftRight register hlow
      rw [pow_one] at hshift
      rw [← hshift, toPolynomial_modulus]

theorem modByMonic_idem (generator : BitVec w) (polynomial : (ZMod 2)[X]) :
    polynomial %ₘ modulus generator %ₘ modulus generator = polynomial %ₘ modulus generator :=
  (modByMonic_eq_self_iff (monic_modulus generator)).mpr
    (degree_modByMonic_lt polynomial (monic_modulus generator))

theorem toPolynomial_shift_iterate (generator register : BitVec w) (n : ℕ) :
    toPolynomial ((shift generator)^[n] register) =
      (X ^ n * toPolynomial register) %ₘ modulus generator := by
  induction n with
  | zero => rw [Function.iterate_zero_apply, pow_zero, one_mul, toPolynomial_modulus]
  | succ n ih =>
      rw [Function.iterate_succ_apply', toPolynomial_shift, ih, mul_modByMonic,
        modByMonic_idem, ← mul_modByMonic, ← mul_assoc, ← pow_succ']

/-! ## Messages -/

theorem toPolynomial_absorb (hw : 8 ≤ w) (generator register : BitVec w) (byte : BitVec 8) :
    toPolynomial (absorb generator register byte) =
      (X ^ 8 * toPolynomial register + X ^ w * toPolynomial byte) %ₘ modulus generator := by
  rw [absorb, toPolynomial_shift_iterate, toPolynomial_xor, toPolynomial_setWidth hw, mul_add,
    ← mul_assoc, ← pow_add, Nat.add_sub_cancel' hw]

/-- The register holds the remainder of the message, moved to the front by the width. -/
theorem toPolynomial_foldl_absorb (hw : 8 ≤ w) (generator : BitVec w)
    (message : List (BitVec 8)) :
    toPolynomial (message.foldl (absorb generator) 0#w) =
      (messagePolynomial message * X ^ w) %ₘ modulus generator := by
  induction message using List.reverseRecOn with
  | nil => rw [List.foldl_nil, toPolynomial_zero, messagePolynomial, List.foldl_nil, zero_mul,
      zero_modByMonic]
  | append_singleton message byte ih =>
      rw [List.foldl_append, List.foldl_cons, List.foldl_nil, toPolynomial_absorb hw, ih,
        messagePolynomial, List.foldl_append, List.foldl_cons, List.foldl_nil, ← messagePolynomial,
        add_mul, add_modByMonic, mul_modByMonic, modByMonic_idem, ← mul_modByMonic,
        ← add_modByMonic]
      congr 1
      ring

/-! ## The table -/

theorem shift_xor (generator left right : BitVec w) :
    shift generator (left ^^^ right) = shift generator left ^^^ shift generator right := by
  apply toPolynomial_injective
  rw [toPolynomial_xor, toPolynomial_shift, toPolynomial_shift, toPolynomial_shift,
    toPolynomial_xor, mul_add, add_modByMonic]

theorem shift_iterate_xor (generator left right : BitVec w) (n : ℕ) :
    (shift generator)^[n] (left ^^^ right) =
      (shift generator)^[n] left ^^^ (shift generator)^[n] right := by
  induction n generalizing left right with
  | zero => rfl
  | succ n ih =>
      rw [Function.iterate_succ_apply, Function.iterate_succ_apply, Function.iterate_succ_apply,
        shift_xor, ih]

theorem shift_iterate_of_clear (generator register : BitVec w) {n : ℕ}
    (hclear : ∀ i < n, register.getLsbD i = false) :
    (shift generator)^[n] register = register >>> n := by
  apply toPolynomial_injective
  rw [toPolynomial_shift_iterate, ← toPolynomial_ushiftRight register hclear,
    toPolynomial_modulus]

/-- A register is its low byte and the rest. -/
theorem low_xor_rest (register : BitVec w) :
    (register.setWidth 8).setWidth w ^^^ ((register >>> 8) <<< 8) = register := by
  apply BitVec.eq_of_getLsbD_eq
  intro i hi
  rw [BitVec.getLsbD_xor, BitVec.getLsbD_setWidth, BitVec.getLsbD_setWidth,
    BitVec.getLsbD_shiftLeft, BitVec.getLsbD_ushiftRight, decide_eq_true hi]
  by_cases hlow : i < 8
  · rw [decide_eq_true hlow]
    simp
  · rw [decide_eq_false hlow, show 8 + (i - 8) = i by omega]
    simp

/-- Eight shifts are one access to the table of the shifts of all bytes. -/
theorem absorb_eq_absorbFromTable (generator : BitVec w) {table : BitVec 8 → BitVec w}
    (htable : ∀ byte, table byte = (shift generator)^[8] (byte.setWidth w))
    (register : BitVec w) (byte : BitVec 8) :
    absorb generator register byte = absorbFromTable table register byte := by
  have hclear : ∀ i < 8,
      (((register ^^^ byte.setWidth w) >>> 8) <<< 8).getLsbD i = false := by
    intro i hi
    rw [BitVec.getLsbD_shiftLeft, decide_eq_true hi]
    simp
  have hrest : (((register ^^^ byte.setWidth w) >>> 8) <<< 8) >>> 8 = register >>> 8 := by
    apply BitVec.eq_of_getLsbD_eq
    intro i _
    rw [BitVec.getLsbD_ushiftRight, BitVec.getLsbD_shiftLeft, BitVec.getLsbD_ushiftRight,
      BitVec.getLsbD_ushiftRight, BitVec.getLsbD_xor, BitVec.getLsbD_setWidth,
      BitVec.getLsbD_of_ge byte _ (by omega), Nat.add_sub_cancel_left]
    by_cases hi : 8 + i < w
    · simp [hi]
    · rw [BitVec.getLsbD_of_ge register _ (not_lt.mp hi)]
      simp
  calc absorb generator register byte
      = (shift generator)^[8] (((register ^^^ byte.setWidth w).setWidth 8).setWidth w ^^^
          (((register ^^^ byte.setWidth w) >>> 8) <<< 8)) := by rw [low_xor_rest, absorb]
    _ = table ((register ^^^ byte.setWidth w).setWidth 8) ^^^ register >>> 8 := by
        rw [shift_iterate_xor, shift_iterate_of_clear generator _ hclear, hrest, htable]
    _ = absorbFromTable table register byte := rfl

/-! ## Differences of messages -/

/-- The bits of a message in the order in which they go through the register. -/
def messageBit (message : List (BitVec 8)) (i : ℕ) : Bool :=
  (message.getD (i / 8) 0#8).getLsbD (i % 8)

theorem messagePolynomial_concat (message : List (BitVec 8)) (byte : BitVec 8) :
    messagePolynomial (message ++ [byte]) = messagePolynomial message * X ^ 8 +
      toPolynomial byte := by
  rw [messagePolynomial, List.foldl_append, List.foldl_cons, List.foldl_nil]

theorem messagePolynomial_append (front back : List (BitVec 8)) :
    messagePolynomial (front ++ back) =
      messagePolynomial front * X ^ (8 * back.length) + messagePolynomial back := by
  induction back using List.reverseRecOn with
  | nil => rw [List.append_nil, messagePolynomial, List.length_nil, mul_zero, pow_zero, mul_one,
      List.foldl_nil, add_zero]
  | append_singleton back byte ih =>
      rw [← List.append_assoc, messagePolynomial_concat, messagePolynomial_concat, ih,
        List.length_append, List.length_singleton, mul_add, pow_add]
      ring

theorem coeff_messagePolynomial (message : List (BitVec 8)) (n : ℕ) :
    (messagePolynomial message).coeff n =
      if n < 8 * message.length then
        coefficient (messageBit message (8 * message.length - 1 - n))
      else 0 := by
  induction message using List.reverseRecOn generalizing n with
  | nil => rw [messagePolynomial, List.foldl_nil, coeff_zero, List.length_nil, if_neg (by omega)]
  | append_singleton message byte ih =>
      rw [messagePolynomial_concat, coeff_add, coeff_mul_X_pow', coeff_toPolynomial, ih,
        List.length_append, List.length_singleton]
      by_cases hlow : n < 8
      · have hindex : (8 * (message.length + 1) - 1 - n) / 8 = message.length := by omega
        have hbit : (8 * (message.length + 1) - 1 - n) % 8 = 7 - n := by omega
        rw [if_neg (by omega), if_pos hlow, if_pos (by omega), zero_add, messageBit, hindex, hbit,
          List.getD_append_right _ _ _ _ le_rfl, Nat.sub_self, List.getD_cons_zero]
      · rw [if_pos (by omega), if_neg hlow, add_zero]
        by_cases hn : n < 8 * (message.length + 1)
        · have hshift : 8 * (message.length + 1) - 1 - n = 8 * message.length - 1 - (n - 8) := by
            omega
          have hinside : (8 * message.length - 1 - (n - 8)) / 8 < message.length := by omega
          rw [if_pos (by omega), if_pos hn, hshift, messageBit, messageBit,
            List.getD_append _ _ _ _ hinside]
        · rw [if_neg (by omega), if_neg hn]

theorem eq_of_messageBit_eq {left right : List (BitVec 8)} (hlength : left.length = right.length)
    (hbits : ∀ i < 8 * left.length, messageBit left i = messageBit right i) : left = right := by
  apply List.ext_getElem hlength
  intro n hleft hright
  apply BitVec.eq_of_getLsbD_eq
  intro i hi
  have hbit := hbits (8 * n + i) (by omega)
  rwa [messageBit, messageBit, show (8 * n + i) / 8 = n by omega,
    show (8 * n + i) % 8 = i by omega, List.getD_eq_getElem _ _ hleft,
    List.getD_eq_getElem _ _ hright] at hbit

theorem messagePolynomial_injective {left right : List (BitVec 8)}
    (hlength : left.length = right.length)
    (hsame : messagePolynomial left = messagePolynomial right) : left = right := by
  apply eq_of_messageBit_eq hlength
  intro i hi
  have hcoeff := congrArg (fun polynomial => polynomial.coeff (8 * left.length - 1 - i)) hsame
  have hback : 8 * left.length - 1 - (8 * left.length - 1 - i) = i := by omega
  simp only [coeff_messagePolynomial, ← hlength, hback,
    if_pos (show 8 * left.length - 1 - i < 8 * left.length by omega)] at hcoeff
  exact coefficient_injective hcoeff

/-- The generator polynomial has no factor `X` if it has a constant term. -/
theorem isCoprime_X_pow_modulus (generator : BitVec w)
    (hconstant : generator.getLsbD (w - 1) = true) (n : ℕ) :
    IsCoprime (X ^ n) (modulus generator) := by
  have hpos : 0 < w := by
    by_contra hzero
    rw [BitVec.getLsbD_of_ge generator _ (by omega)] at hconstant
    cases hconstant
  have hone : (modulus generator).coeff 0 = 1 := by
    rw [modulus, coeff_add, coeff_X_pow, if_neg (by omega), coeff_toPolynomial, if_pos hpos,
      Nat.sub_zero, hconstant, coefficient, if_pos rfl, zero_add]
  have hsplit : modulus generator = X * (modulus generator).divX + 1 := by
    conv_lhs => rw [← X_mul_divX_add (modulus generator), hone, C_1]
  apply IsCoprime.pow_left
  refine ⟨-(modulus generator).divX, 1, ?_⟩
  rw [one_mul]
  nth_rewrite 2 [hsplit]
  ring

/-- A difference shorter than the register is seen wherever it lies. -/
theorem eq_zero_of_modulus_dvd (generator : BitVec w)
    (hconstant : generator.getLsbD (w - 1) = true) {burst : (ZMod 2)[X]} {n : ℕ}
    (hshort : burst.degree < w) (hdvd : modulus generator ∣ X ^ n * burst) : burst = 0 := by
  have hburst : modulus generator ∣ burst :=
    (isCoprime_X_pow_modulus generator hconstant n).symm.dvd_of_dvd_mul_left hdvd
  apply eq_zero_of_dvd_of_degree_lt hburst
  rw [degree_modulus]
  exact hshort

/-- Two messages that differ in a window no longer than the register leave different
remainders. -/
theorem eq_of_remainder_eq (generator : BitVec w)
    (hconstant : generator.getLsbD (w - 1) = true) {left right : List (BitVec 8)}
    (hlength : left.length = right.length) {first : ℕ}
    (hwindow : ∀ i < 8 * left.length, messageBit left i ≠ messageBit right i →
      first ≤ i ∧ i < first + w)
    (hsame : (messagePolynomial left * X ^ w) %ₘ modulus generator =
      (messagePolynomial right * X ^ w) %ₘ modulus generator) : left = right := by
  let difference := messagePolynomial left + messagePolynomial right
  have houtside : ∀ n, (n + first + w < 8 * left.length ∨ 8 * left.length ≤ n + first) →
      difference.coeff n = 0 := by
    intro n hn
    rw [coeff_add, coeff_messagePolynomial, coeff_messagePolynomial, ← hlength]
    split
    · have hagree : messageBit left (8 * left.length - 1 - n) =
          messageBit right (8 * left.length - 1 - n) := by
        by_contra hne
        have hinside := hwindow _ (by omega) hne
        omega
      rw [hagree, CharTwo.add_self_eq_zero]
    · exact add_zero 0
  -- the window of the difference, moved to the end of the message
  obtain ⟨burst, hburst⟩ : X ^ (8 * left.length - (first + w)) ∣ difference :=
    X_pow_dvd_iff.mpr fun n hn => houtside n (.inl (by omega))
  have hshort : burst.degree < w := by
    rw [degree_lt_iff_coeff_zero]
    intro n hn
    have hcoeff := coeff_X_pow_mul burst (8 * left.length - (first + w)) n
    rw [← hburst] at hcoeff
    rw [← hcoeff]
    exact houtside _ (.inr (by omega))
  have hdvd : modulus generator ∣ X ^ (8 * left.length - (first + w) + w) * burst := by
    have hproduct : X ^ (8 * left.length - (first + w) + w) * burst = difference * X ^ w := by
      rw [pow_add, hburst]
      ring
    rw [hproduct, ← modByMonic_eq_zero_iff_dvd (monic_modulus generator), add_mul,
      add_modByMonic, hsame, add_self_eq_zero]
  have hzero : difference = 0 := by
    rw [hburst, eq_zero_of_modulus_dvd generator hconstant hshort hdvd, mul_zero]
  exact messagePolynomial_injective hlength (CharTwo.add_eq_zero.mp hzero)

/-- A message is followed by its remainder exactly when nothing remains of the whole. -/
theorem remainder_append_eq_zero_iff (generator : BitVec w)
    (hconstant : generator.getLsbD (w - 1) = true) {message trailer : List (BitVec 8)}
    (hlength : 8 * trailer.length = w) {register : BitVec w}
    (hregister : toPolynomial register = (messagePolynomial message * X ^ w) %ₘ modulus generator) :
    (messagePolynomial (message ++ trailer) * X ^ w) %ₘ modulus generator = 0 ↔
      messagePolynomial trailer = toPolynomial register := by
  have hcancel : modulus generator ∣ messagePolynomial (message ++ trailer) * X ^ w ↔
      modulus generator ∣ messagePolynomial (message ++ trailer) :=
    ⟨(isCoprime_X_pow_modulus generator hconstant w).symm.dvd_of_dvd_mul_right,
      fun hdvd => hdvd.mul_right _⟩
  have hshort : (messagePolynomial trailer).degree < w := by
    rw [degree_lt_iff_coeff_zero]
    intro n hn
    rw [coeff_messagePolynomial, if_neg (by omega)]
  have htrailer : messagePolynomial trailer %ₘ modulus generator = messagePolynomial trailer := by
    rw [modByMonic_eq_self_iff (monic_modulus generator), degree_modulus]
    exact hshort
  rw [modByMonic_eq_zero_iff_dvd (monic_modulus generator), hcancel,
    ← modByMonic_eq_zero_iff_dvd (monic_modulus generator), messagePolynomial_append, hlength,
    add_modByMonic, ← hregister, htrailer, CharTwo.add_eq_zero, eq_comm]

/-- The bytes of a register, the lowest first. -/
def bytes (register : BitVec w) : List (BitVec 8) :=
  (List.range (w / 8)).map fun i => (register >>> (8 * i)).setWidth 8

theorem length_bytes (register : BitVec w) : (bytes register).length = w / 8 := by
  rw [bytes, List.length_map, List.length_range]

theorem messageBit_bytes (hw : 8 ∣ w) (register : BitVec w) (i : ℕ) :
    messageBit (bytes register) i = register.getLsbD i := by
  rw [messageBit]
  by_cases hi : i < w
  · have hindex : i / 8 < (bytes register).length := by
      rw [length_bytes]
      omega
    have hsplit : 8 * (i / 8) + i % 8 = i := Nat.div_add_mod i 8
    have hmod : i % 8 < 8 := Nat.mod_lt i (by decide)
    rw [List.getD_eq_getElem _ _ hindex]
    simp [bytes, hsplit, hmod]
  · have hindex : (bytes register).length ≤ i / 8 := by
      rw [length_bytes]
      omega
    rw [List.getD_eq_default _ _ hindex, BitVec.getLsbD_zero,
      BitVec.getLsbD_of_ge register i (not_lt.mp hi)]

theorem messagePolynomial_bytes (hw : 8 ∣ w) (register : BitVec w) :
    messagePolynomial (bytes register) = toPolynomial register := by
  ext n
  rw [coeff_messagePolynomial, coeff_toPolynomial, messageBit_bytes hw, length_bytes,
    Nat.mul_div_cancel' hw]

end GeexOS.ShiftRegister
