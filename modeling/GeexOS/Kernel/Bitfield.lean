import GeexOS.Library.Halting
import Mathlib.Data.List.Basic
import Mathlib.Logic.Function.Basic
import Mathlib.Tactic.Common

/-!
# The kernel's bitfield

Bits live in 32-bit words.  Every access asserts that the index is below the
number of elements, so an index out of range stops the kernel.
-/

namespace GeexOS.DataStructures

open GeexOS.Halting

structure Bitfield where
  numElements : ℕ
  field : ℕ → BitVec 32

/-- The constructor clears every word. -/
def Bitfield.new (numElements : ℕ) : Bitfield where
  numElements := numElements
  field := fun _ => 0

def indexFromBit (bit : ℕ) : ℕ := bit / 32

def offsetFromBit (bit : ℕ) : ℕ := bit % 32

def outOfBounds : Halt := .assertion "Argument of bounds"

def Bitfield.setBit (bits : Bitfield) (index : ℕ) : Outcome Bitfield :=
  if index < bits.numElements then
    .ok { bits with
      field := Function.update bits.field (indexFromBit index)
        (bits.field (indexFromBit index) ||| (1#32 <<< offsetFromBit index)) }
  else .error outOfBounds

def Bitfield.clearBit (bits : Bitfield) (index : ℕ) : Outcome Bitfield :=
  if index < bits.numElements then
    .ok { bits with
      field := Function.update bits.field (indexFromBit index)
        (bits.field (indexFromBit index) &&& ~~~(1#32 <<< offsetFromBit index)) }
  else .error outOfBounds

def Bitfield.isBitSet (bits : Bitfield) (index : ℕ) : Outcome Bool :=
  if index < bits.numElements then
    .ok (bits.field (indexFromBit index) &&& (1#32 <<< offsetFromBit index) != 0#32)
  else .error outOfBounds

/-- Only whole words are searched; `0xFFFFFFFF` reports that none has a
cleared bit. -/
def Bitfield.getFirstClearedIndex (bits : Bitfield) : ℕ :=
  ((List.range (indexFromBit bits.numElements)).findSome? fun word =>
    if bits.field word ≠ 0xFFFFFFFF#32 then
      (List.range 32).findSome? fun offset =>
        if bits.field word &&& (1#32 <<< offset) = 0#32 then
          some (word * 32 + offset)
        else none
    else none).getD 0xFFFFFFFF

/-! ## Bits as a function of the index -/

/-- The bit the three accessors are about. -/
def Bitfield.bit (bits : Bitfield) (index : ℕ) : Bool :=
  (bits.field (indexFromBit index)).getLsbD (offsetFromBit index)

theorem offsetFromBit_lt (index : ℕ) : offsetFromBit index < 32 :=
  Nat.mod_lt _ (by decide)

theorem eq_of_index_offset {left right : ℕ}
    (hindex : indexFromBit left = indexFromBit right)
    (hoffset : offsetFromBit left = offsetFromBit right) : left = right := by
  simp only [indexFromBit, offsetFromBit] at hindex hoffset
  omega

/-- One bit of a single-bit mask. -/
theorem getLsbD_mask {position : ℕ} (hposition : position < 32) (offset : ℕ) :
    (1#32 <<< offset).getLsbD position = decide (position = offset) := by
  rw [BitVec.getLsbD_shiftLeft]
  by_cases hlt : position < offset
  · have hne : position ≠ offset := Nat.ne_of_lt hlt
    simp [hlt, hne]
  · have hbit : (1#32).getLsbD (position - offset) =
        decide (position - offset = 0) := by
      simp [BitVec.getLsbD_one]
    have hsub : (position - offset = 0) ↔ (position = offset) := by omega
    rw [hbit]
    simp [hposition, hlt, hsub]

theorem land_mask_eq_zero_iff (word : BitVec 32) {offset : ℕ}
    (hoffset : offset < 32) :
    word &&& (1#32 <<< offset) = 0#32 ↔ word.getLsbD offset = false := by
  constructor
  · intro hzero
    have hbit := congrArg (fun value : BitVec 32 => value.getLsbD offset) hzero
    simpa [BitVec.getLsbD_and, getLsbD_mask hoffset offset] using hbit
  · intro hclear
    apply BitVec.eq_of_getLsbD_eq
    intro position hposition
    rw [BitVec.getLsbD_and, getLsbD_mask hposition offset]
    by_cases heq : position = offset
    · subst heq
      simp [hclear]
    · simp [heq]

theorem Bitfield.isBitSet_of_lt {bits : Bitfield} {index : ℕ}
    (hindex : index < bits.numElements) :
    bits.isBitSet index = .ok (bits.bit index) := by
  rw [isBitSet, if_pos hindex]
  congr 1
  have hzero := land_mask_eq_zero_iff (bits.field (indexFromBit index))
    (offsetFromBit_lt index)
  cases hbit : bits.bit index with
  | false =>
      rw [hzero.mpr hbit]
      rfl
  | true =>
      rw [bne_iff_ne]
      intro heq
      have hclear := hzero.mp heq
      simp only [Bitfield.bit] at hbit
      rw [hclear] at hbit
      exact Bool.noConfusion hbit

theorem Bitfield.isBitSet_of_le {bits : Bitfield} {index : ℕ}
    (hindex : bits.numElements ≤ index) :
    bits.isBitSet index = .error outOfBounds := by
  rw [isBitSet, if_neg (by omega)]

/-- `bits'` differs from `bits` at `index` only, where it holds `value`. -/
structure BitUpdate (bits bits' : Bitfield) (index : ℕ) (value : Bool) :
    Prop where
  numElements_eq : bits'.numElements = bits.numElements
  bit_eq : ∀ position,
    bits'.bit position = if position = index then value else bits.bit position

theorem bitUpdate_of_word {bits : Bitfield} {index : ℕ} {word : BitVec 32}
    {value : Bool}
    (hword : ∀ offset, offset < 32 → word.getLsbD offset =
      if offset = offsetFromBit index then value
      else (bits.field (indexFromBit index)).getLsbD offset) :
    BitUpdate bits
      { bits with field := Function.update bits.field (indexFromBit index) word }
      index value := by
  refine ⟨rfl, fun position => ?_⟩
  simp only [Bitfield.bit]
  by_cases hindex : indexFromBit position = indexFromBit index
  · rw [hindex, Function.update_self, hword _ (offsetFromBit_lt position)]
    by_cases hoffset : offsetFromBit position = offsetFromBit index
    · rw [if_pos hoffset, if_pos (eq_of_index_offset hindex hoffset)]
    · rw [if_neg hoffset, if_neg (fun heq => hoffset (by rw [heq]))]
  · rw [Function.update_of_ne hindex, if_neg (fun heq => hindex (by rw [heq]))]

theorem Bitfield.setBit_of_lt {bits : Bitfield} {index : ℕ}
    (hindex : index < bits.numElements) :
    ∃ bits', bits.setBit index = .ok bits' ∧ BitUpdate bits bits' index true := by
  refine ⟨_, by rw [setBit, if_pos hindex], bitUpdate_of_word ?_⟩
  intro offset hoffset
  rw [BitVec.getLsbD_or, getLsbD_mask hoffset]
  by_cases heq : offset = offsetFromBit index <;> simp [heq]

theorem Bitfield.clearBit_of_lt {bits : Bitfield} {index : ℕ}
    (hindex : index < bits.numElements) :
    ∃ bits', bits.clearBit index = .ok bits' ∧
      BitUpdate bits bits' index false := by
  refine ⟨_, by rw [clearBit, if_pos hindex], bitUpdate_of_word ?_⟩
  intro offset hoffset
  rw [BitVec.getLsbD_and, BitVec.getLsbD_not,
    getLsbD_mask hoffset]
  by_cases heq : offset = offsetFromBit index <;> simp [heq, hoffset]

theorem Bitfield.setBit_eq_ok {bits bits' : Bitfield} {index : ℕ}
    (hset : bits.setBit index = .ok bits') :
    index < bits.numElements ∧ BitUpdate bits bits' index true := by
  by_cases hindex : index < bits.numElements
  · obtain ⟨other, hother, hupdate⟩ := setBit_of_lt hindex
    rw [hset, Except.ok.injEq] at hother
    exact ⟨hindex, hother ▸ hupdate⟩
  · rw [setBit, if_neg hindex] at hset
    simp at hset

theorem Bitfield.clearBit_eq_ok {bits bits' : Bitfield} {index : ℕ}
    (hclear : bits.clearBit index = .ok bits') :
    index < bits.numElements ∧ BitUpdate bits bits' index false := by
  by_cases hindex : index < bits.numElements
  · obtain ⟨other, hother, hupdate⟩ := clearBit_of_lt hindex
    rw [hclear, Except.ok.injEq] at hother
    exact ⟨hindex, hother ▸ hupdate⟩
  · rw [clearBit, if_neg hindex] at hclear
    simp at hclear

@[simp]
theorem Bitfield.bit_new (numElements index : ℕ) :
    (Bitfield.new numElements).bit index = false := by
  simp [Bitfield.bit, Bitfield.new]

/-- The search returns the index of a cleared bit, or the error value. -/
theorem Bitfield.getFirstClearedIndex_spec (bits : Bitfield) :
    bits.getFirstClearedIndex = 0xFFFFFFFF ∨
      bits.bit bits.getFirstClearedIndex = false := by
  unfold getFirstClearedIndex
  cases hsearch : (List.range (indexFromBit bits.numElements)).findSome? _ with
  | none => exact Or.inl rfl
  | some index =>
      right
      obtain ⟨word, _, hword⟩ := List.exists_of_findSome?_eq_some hsearch
      split at hword
      · obtain ⟨offset, hmem, hoffset⟩ := List.exists_of_findSome?_eq_some hword
        have hlt : offset < 32 := List.mem_range.mp hmem
        split at hoffset
        · rename_i hzero
          rw [Option.some.injEq] at hoffset
          have hword_eq : indexFromBit index = word := by
            simp only [indexFromBit]
            omega
          have hoffset_eq : offsetFromBit index = offset := by
            simp only [offsetFromBit]
            omega
          rw [Option.getD_some, Bitfield.bit, hword_eq, hoffset_eq]
          exact (land_mask_eq_zero_iff _ hlt).mp hzero
        · simp at hoffset
      · simp at hword

end GeexOS.DataStructures
