import GeexOS.Kernel.PhysicalAllocator
import Mathlib.Logic.Relation

/-!
# The search for a free frame

The search goes through whole words of the bitfield.  What lies behind the last whole
word is never found.
-/

namespace GeexOS.DataStructures

open GeexOS.Halting

variable {bits bits' : Bitfield} {n index word : ℕ}

/-! ## One word -/

theorem findSome?_range_eq {α : Type} {f : ℕ → Option α} {result : α} (hlt : index < n)
    (hfound : f index = some result) (hbefore : ∀ other < index, f other = none) :
    (List.range n).findSome? f = some result := by
  obtain ⟨rest, rfl⟩ : ∃ rest, n = index + (rest + 1) :=
    ⟨n - index - 1, by omega⟩
  rw [List.range_add, List.findSome?_append,
    List.findSome?_eq_none_iff.mpr fun other hmem => hbefore other (List.mem_range.mp hmem),
    Option.none_or, List.range_succ_eq_map, List.map_cons, List.findSome?_cons]
  simp only [Nat.add_zero, hfound]

/-- The inner loop. -/
def Bitfield.clearedInWord (bits : Bitfield) (word : ℕ) : Option ℕ :=
  if bits.field word ≠ 0xFFFFFFFF#32 then
    (List.range 32).findSome? fun offset =>
      if bits.field word &&& (1#32 <<< offset) = 0#32 then some (word * 32 + offset) else none
  else none

theorem Bitfield.getFirstClearedIndex_eq (bits : Bitfield) :
    bits.getFirstClearedIndex =
      ((List.range (indexFromBit bits.numElements)).findSome? bits.clearedInWord).getD
        0xFFFFFFFF :=
  rfl

theorem Bitfield.bit_of_word (bits : Bitfield) {offset : ℕ} (hoffset : offset < 32) :
    bits.bit (word * 32 + offset) = (bits.field word).getLsbD offset := by
  have hindex : indexFromBit (word * 32 + offset) = word := by
    simp only [indexFromBit]
    omega
  have hrest : offsetFromBit (word * 32 + offset) = offset := by
    simp only [offsetFromBit]
    omega
  rw [Bitfield.bit, hindex, hrest]

/-- A word of ones is passed over. -/
theorem Bitfield.clearedInWord_eq_none
    (hset : ∀ offset < 32, bits.bit (word * 32 + offset) = true) :
    bits.clearedInWord word = none := by
  rw [clearedInWord]
  split
  · refine List.findSome?_eq_none_iff.mpr fun offset hmem => if_neg fun hzero => ?_
    have hoffset := List.mem_range.mp hmem
    have hclear := (land_mask_eq_zero_iff _ hoffset).mp hzero
    rw [← bits.bit_of_word hoffset, hset offset hoffset] at hclear
    cases hclear
  · rfl

/-- In any other word the first cleared bit is found. -/
theorem Bitfield.clearedInWord_eq_some {offset : ℕ} (hoffset : offset < 32)
    (hclear : bits.bit (word * 32 + offset) = false)
    (hset : ∀ other < offset, bits.bit (word * 32 + other) = true) :
    bits.clearedInWord word = some (word * 32 + offset) := by
  rw [bits.bit_of_word hoffset] at hclear
  have hne : bits.field word ≠ 0xFFFFFFFF#32 := by
    intro hones
    have hbit : (0xFFFFFFFF#32).getLsbD offset = true := by
      change (BitVec.allOnes 32).getLsbD offset = true
      rw [BitVec.getLsbD_allOnes, decide_eq_true hoffset]
    rw [hones, hbit] at hclear
    cases hclear
  rw [clearedInWord, if_pos hne]
  refine findSome?_range_eq hoffset (if_pos ((land_mask_eq_zero_iff _ hoffset).mpr hclear))
    fun other hother => if_neg fun hzero => ?_
  have hother' := hother.trans hoffset
  have hfalse := (land_mask_eq_zero_iff _ hother').mp hzero
  rw [← bits.bit_of_word hother', hset other hother] at hfalse
  cases hfalse

/-! ## The whole search -/

/-- The bits that are searched. -/
def Bitfield.searched (bits : Bitfield) : ℕ := bits.numElements / 32 * 32

theorem Bitfield.searched_le (bits : Bitfield) : bits.searched ≤ bits.numElements :=
  Nat.div_mul_le_self _ _

theorem Bitfield.getFirstClearedIndex_of_clear (hsearched : index < bits.searched)
    (hclear : bits.bit index = false) (hset : ∀ other < index, bits.bit other = true) :
    bits.getFirstClearedIndex = index := by
  obtain ⟨word, offset, hoffset, rfl⟩ : ∃ word offset, offset < 32 ∧ index = word * 32 + offset :=
    ⟨index / 32, index % 32, Nat.mod_lt _ (by decide), by omega⟩
  have hword : word < indexFromBit bits.numElements := by
    simp only [searched] at hsearched
    simp only [indexFromBit]
    omega
  have hfound := clearedInWord_eq_some hoffset hclear fun other hother => hset _ (by omega)
  have hbefore : ∀ other < word, bits.clearedInWord other = none := fun other hother =>
    clearedInWord_eq_none fun position hposition => hset _ (by omega)
  rw [getFirstClearedIndex_eq, findSome?_range_eq hword hfound hbefore, Option.getD_some]

theorem Bitfield.getFirstClearedIndex_of_set
    (hset : ∀ index < bits.searched, bits.bit index = true) :
    bits.getFirstClearedIndex = 0xFFFFFFFF := by
  rw [getFirstClearedIndex_eq, List.findSome?_eq_none_iff.mpr, Option.getD_none]
  intro word hmem
  refine clearedInWord_eq_none fun offset hoffset => hset _ ?_
  have hword := List.mem_range.mp hmem
  simp only [indexFromBit] at hword
  simp only [searched]
  omega

/-- Among the searched bits the first cleared one is found. -/
theorem Bitfield.getFirstClearedIndex_cases (bits : Bitfield) :
    (bits.getFirstClearedIndex < bits.searched ∧
        bits.bit bits.getFirstClearedIndex = false ∧
        ∀ other < bits.getFirstClearedIndex, bits.bit other = true) ∨
      (bits.getFirstClearedIndex = 0xFFFFFFFF ∧
        ∀ index < bits.searched, bits.bit index = true) := by
  by_cases hall : ∀ index < bits.searched, bits.bit index = true
  · exact Or.inr ⟨getFirstClearedIndex_of_set hall, hall⟩
  · left
    have hexists : ∃ index, index < bits.searched ∧ bits.bit index = false := by
      simpa using hall
    obtain ⟨hlt, hclear⟩ := Nat.find_spec hexists
    have hset : ∀ other < Nat.find hexists, bits.bit other = true := by
      intro other hother
      have hnot := Nat.find_min hexists hother
      rw [not_and, Bool.not_eq_false] at hnot
      exact hnot (hother.trans hlt)
    rw [getFirstClearedIndex_of_clear hlt hclear hset]
    exact ⟨hlt, hclear, hset⟩

/-! ## Runs -/

/-- A call that comes back. -/
inductive BitfieldCall : Bitfield → Bitfield → Prop
  | setBit {bits bits' : Bitfield} {index : ℕ} (hcall : bits.setBit index = .ok bits') :
      BitfieldCall bits bits'
  | clearBit {bits bits' : Bitfield} {index : ℕ} (hcall : bits.clearBit index = .ok bits') :
      BitfieldCall bits bits'

theorem BitfieldCall.numElements_eq (hcall : BitfieldCall bits bits') :
    bits'.numElements = bits.numElements := by
  cases hcall with
  | setBit hcall => exact (Bitfield.setBit_eq_ok hcall).2.numElements_eq
  | clearBit hcall => exact (Bitfield.clearBit_eq_ok hcall).2.numElements_eq

theorem BitfieldCall.numElements_run (hrun : Relation.ReflTransGen BitfieldCall bits bits') :
    bits'.numElements = bits.numElements := by
  induction hrun with
  | refl => rfl
  | tail _ hcall ih => exact hcall.numElements_eq.trans ih

end GeexOS.DataStructures

namespace GeexOS.PhysicalAllocator

open GeexOS.Halting
open GeexOS.DataStructures
open BitfieldPhysicalMemoryAllocator

variable {bits : Bitfield} {n : ℕ}

/-! ## The allocator -/

def outOfFrames : Halt := .panic "Desperately out of memory: No more frames left to allocate"

theorem allocateFrame_outOfFrames {allocator : BitfieldPhysicalMemoryAllocator} :
    allocator.allocateFrame true = .error outOfFrames ↔
      allocator.frames.getFirstClearedIndex = 0xFFFFFFFF := by
  simp only [allocateFrame, Bool.not_true, Bool.false_eq_true, if_false]
  constructor
  · intro hpanic
    by_contra hfound
    rw [if_neg hfound] at hpanic
    by_cases hlt : allocator.frames.getFirstClearedIndex < allocator.frames.numElements
    · obtain ⟨frames, hset, -⟩ := Bitfield.setBit_of_lt hlt
      rw [hset] at hpanic
      cases hpanic
    · rw [Bitfield.setBit, if_neg hlt, error_bind] at hpanic
      exact absurd (Except.error.inj hpanic) (by decide)
  · exact fun hnone => if_pos hnone

/-- What the search is for, and what `AllocateFrame` makes of it. -/
structure FindsFirstCleared (bits : Bitfield) : Prop where
  first : ∀ index < bits.numElements, bits.bit index = false →
    (∀ other < index, bits.bit other = true) → bits.getFirstClearedIndex = index
  none_iff : bits.getFirstClearedIndex = 0xFFFFFFFF ↔
    ∀ index < bits.numElements, bits.bit index = true
  panics : ∀ allocator : BitfieldPhysicalMemoryAllocator, allocator.frames = bits →
    allocator.WellFormed → allocator.allocateFrame true = .error outOfFrames →
      ∀ frame < allocator.nFrames, allocator.Used frame

/-- The search is right exactly if a bit of the whole words is cleared, or none at all. -/
theorem findsFirstCleared_iff (hn : n < 2 ^ 32)
    (hrun : Relation.ReflTransGen BitfieldCall (.new n) bits) :
    FindsFirstCleared bits ↔
      (∃ index < n / 32 * 32, bits.bit index = false) ∨ ∀ index < n, bits.bit index = true := by
  have helements : bits.numElements = n := BitfieldCall.numElements_run hrun
  have hsearched : bits.searched = n / 32 * 32 := by rw [Bitfield.searched, helements]
  have hle := bits.searched_le
  rw [← hsearched, ← helements]
  constructor
  · intro hfinds
    rcases bits.getFirstClearedIndex_cases with ⟨hlt, hclear, -⟩ | ⟨hnone, -⟩
    · exact Or.inl ⟨_, hlt, hclear⟩
    · exact Or.inr (hfinds.none_iff.mp hnone)
  · intro hcondition
    have hnone : bits.getFirstClearedIndex = 0xFFFFFFFF ↔
        ∀ index < bits.numElements, bits.bit index = true := by
      constructor
      · intro herror
        refine hcondition.resolve_left fun ⟨index, hlt, hclear⟩ => ?_
        rcases bits.getFirstClearedIndex_cases with ⟨hfound, -, -⟩ | ⟨-, hset⟩
        · omega
        · rw [hset index hlt] at hclear
          cases hclear
      · exact fun hset => Bitfield.getFirstClearedIndex_of_set fun index hlt =>
          hset index (hlt.trans_le hle)
    refine ⟨fun index hlt hclear hset => ?_, hnone, fun allocator hframes hallocator hpanic => ?_⟩
    · have hfirst : index < bits.searched := by
        rcases hcondition with ⟨other, hother, hclear'⟩ | hall
        · by_contra hge
          rw [hset other (by omega)] at hclear'
          cases hclear'
        · rw [hall index hlt] at hclear
          cases hclear
      exact Bitfield.getFirstClearedIndex_of_clear hfirst hclear hset
    · intro frame hframe
      rw [allocateFrame_outOfFrames, hframes, hnone] at hpanic
      rw [Used, hframes]
      exact hpanic frame (by rwa [← hframes, hallocator])

/-- Of forty frames two are taken, and the first is given back. -/
theorem findsFirstCleared_iff_fortyFrames : ∃ bits,
    Relation.ReflTransGen BitfieldCall (.new 40) bits ∧ bits.bit 1 = true ∧
      FindsFirstCleared bits := by
  obtain ⟨first, hfirst, hupdate⟩ := @Bitfield.setBit_of_lt (.new 40) 0 (by decide)
  have hcount : first.numElements = 40 := hupdate.numElements_eq
  obtain ⟨second, hsecond, hupdate⟩ := @Bitfield.setBit_of_lt first 1 (by omega)
  have hset : second.bit 1 = true := (hupdate.bit_eq 1).trans (if_pos rfl)
  have hcount : second.numElements = 40 := hupdate.numElements_eq.trans hcount
  obtain ⟨third, hthird, hupdate⟩ := @Bitfield.clearBit_of_lt second 0 (by omega)
  have hclear : third.bit 0 = false := (hupdate.bit_eq 0).trans (if_pos rfl)
  have hrun : Relation.ReflTransGen BitfieldCall (.new 40) third :=
    ((Relation.ReflTransGen.single (.setBit hfirst)).tail (.setBit hsecond)).tail
      (.clearBit hthird)
  refine ⟨third, hrun, (hupdate.bit_eq 1).trans hset, ?_⟩
  exact (findsFirstCleared_iff (by decide) hrun).mpr (Or.inl ⟨0, by decide, hclear⟩)

/-- The only bit of a field of one bit is not found. -/
theorem oneBit_not_found :
    ¬ ∀ (n : ℕ) (bits : Bitfield), 1 ≤ n → n < 2 ^ 32 →
      Relation.ReflTransGen BitfieldCall (.new n) bits → FindsFirstCleared bits := by
  intro hall
  have hfinds := hall 1 (.new 1) le_rfl (by decide) .refl
  have hset := hfinds.none_iff.mp rfl 0 (by decide)
  rw [Bitfield.bit_new] at hset
  cases hset

end GeexOS.PhysicalAllocator
