import GeexOS.Library.Words
import Mathlib.Logic.Function.Basic

/-!
# Byte memory with little-endian words

A memory gives a byte for every address.  Words are read and written low byte
first.  A read sees the last write to the same bytes and no write elsewhere.
-/

namespace GeexOS.ByteMemory

open GeexOS.Words

abbrev Memory := ℕ → UInt8

variable {memory memory' : Memory} {address position value length : ℕ}

def load16 (memory : Memory) (address : ℕ) : ℕ :=
  (memory address).toNat + 256 * (memory (address + 1)).toNat

def load32 (memory : Memory) (address : ℕ) : ℕ :=
  load16 memory address + 2 ^ 16 * load16 memory (address + 2)

def load64 (memory : Memory) (address : ℕ) : ℕ :=
  load32 memory address + 2 ^ 32 * load32 memory (address + 4)

/-- `length` bytes from `address` on are replaced. -/
def writeBytes (memory : Memory) (address length : ℕ) (bytes : ℕ → UInt8) : Memory :=
  fun position =>
    if address ≤ position ∧ position < address + length then bytes (position - address)
    else memory position

/-- Byte `index` of a value. -/
def byteOf (value index : ℕ) : UInt8 := UInt8.ofNat (value / 256 ^ index)

def store32 (memory : Memory) (address value : ℕ) : Memory :=
  writeBytes memory address 4 (byteOf value)

/-! ## Reading -/

theorem toNat_lt (byte : UInt8) : byte.toNat < 256 := UInt8.toNat_lt byte

theorem load16_lt : load16 memory address < 2 ^ 16 := by
  have hlow := toNat_lt (memory address)
  have hhigh := toNat_lt (memory (address + 1))
  simp only [load16]
  omega

theorem load32_lt : load32 memory address < 2 ^ 32 := by
  have hlow : load16 memory address < 2 ^ 16 := load16_lt
  have hhigh : load16 memory (address + 2) < 2 ^ 16 := load16_lt
  simp only [load32]
  omega

theorem load64_lt : load64 memory address < 2 ^ 64 := by
  have hlow : load32 memory address < 2 ^ 32 := load32_lt
  have hhigh : load32 memory (address + 4) < 2 ^ 32 := load32_lt
  simp only [load64]
  omega

/-- Words with the same bytes are the same, wherever they lie. -/
theorem load32_eq_of_bytes {address' : ℕ}
    (hsame : ∀ index < 4, memory' (address' + index) = memory (address + index)) :
    load32 memory' address' = load32 memory address := by
  have hzero := hsame 0 (by norm_num)
  have hone := hsame 1 (by norm_num)
  have htwo := hsame 2 (by norm_num)
  have hthree := hsame 3 (by norm_num)
  rw [Nat.add_zero, Nat.add_zero] at hzero
  simp only [load32, load16, Nat.add_assoc, Nat.reduceAdd, hzero, hone, htwo, hthree]

theorem load64_eq_of_bytes {address' : ℕ}
    (hsame : ∀ index < 8, memory' (address' + index) = memory (address + index)) :
    load64 memory' address' = load64 memory address := by
  have hlow : load32 memory' address' = load32 memory address :=
    load32_eq_of_bytes fun index hindex => hsame index (by omega)
  have hhigh : load32 memory' (address' + 4) = load32 memory (address + 4) := by
    refine load32_eq_of_bytes fun index hindex => ?_
    rw [Nat.add_assoc, Nat.add_assoc]
    exact hsame (4 + index) (by omega)
  rw [load64, load64, hlow, hhigh]

/-- A word depends on its own bytes only. -/
theorem load32_congr (hsame : ∀ index < 4,
      memory' (address + index) = memory (address + index)) :
    load32 memory' address = load32 memory address :=
  load32_eq_of_bytes hsame

/-! ## Writing -/

theorem writeBytes_of_mem {bytes : ℕ → UInt8} (hlow : address ≤ position)
    (hhigh : position < address + length) :
    writeBytes memory address length bytes position = bytes (position - address) :=
  if_pos ⟨hlow, hhigh⟩

theorem writeBytes_of_notMem {bytes : ℕ → UInt8}
    (houtside : position < address ∨ address + length ≤ position) :
    writeBytes memory address length bytes position = memory position :=
  if_neg (by omega)

theorem store32_of_notMem (houtside : position < address ∨ address + 4 ≤ position) :
    store32 memory address value position = memory position :=
  writeBytes_of_notMem houtside

theorem store32_byte {index : ℕ} (hindex : index < 4) :
    store32 memory address value (address + index) = byteOf value index := by
  rw [store32, writeBytes_of_mem (by omega) (by omega), Nat.add_sub_cancel_left]

theorem toNat_byteOf (value index : ℕ) :
    (byteOf value index).toNat = value / 256 ^ index % 256 := by
  simp [byteOf]

@[simp]
theorem load32_store32_self (hvalue : value < 2 ^ 32) :
    load32 (store32 memory address value) address = value := by
  have hzero : store32 memory address value address = byteOf value 0 :=
    store32_byte (by norm_num : 0 < 4)
  have hone : store32 memory address value (address + 1) = byteOf value 1 :=
    store32_byte (by norm_num)
  have htwo : store32 memory address value (address + 2) = byteOf value 2 :=
    store32_byte (by norm_num)
  have hthree : store32 memory address value (address + 3) = byteOf value 3 :=
    store32_byte (by norm_num)
  simp only [load32, load16, Nat.add_assoc, Nat.reduceAdd, hzero, hone, htwo, hthree,
    toNat_byteOf]
  omega

/-- Disjoint words do not interfere. -/
theorem load32_store32_of_disjoint
    (hdisjoint : position + 4 ≤ address ∨ address + 4 ≤ position) :
    load32 (store32 memory address value) position = load32 memory position :=
  load32_congr fun _ _ => store32_of_notMem (by omega)

/-- A word from bytes that are written. -/
theorem load32_writeBytes_self {bytes : Memory} {offset : ℕ} (hfits : offset + 4 ≤ length) :
    load32 (writeBytes memory address length bytes) (address + offset) = load32 bytes offset := by
  refine load32_eq_of_bytes fun index hindex => ?_
  rw [writeBytes_of_mem (by omega) (by omega)]
  congr 1
  omega

theorem load32_writeBytes_of_disjoint {bytes : Memory}
    (hdisjoint : position + 4 ≤ address ∨ address + length ≤ position) :
    load32 (writeBytes memory address length bytes) position = load32 memory position :=
  load32_congr fun _ _ => writeBytes_of_notMem (by omega)

/-! ## Copies one after the other -/

section Copies

variable {ι : Type*} {target source size : ι → ℕ} {items : List ι}

/-- Each item's bytes are copied from its source to its target. -/
def copyAll (target source size : ι → ℕ) (items : List ι) (memory : Memory) : Memory :=
  items.foldl (fun memory item =>
    writeBytes memory (target item) (size item) fun index => memory (source item + index)) memory

theorem copyAll_of_notMem
    (houtside : ∀ item ∈ items, position < target item ∨ target item + size item ≤ position) :
    copyAll target source size items memory position = memory position := by
  induction items generalizing memory with
  | nil => rfl
  | cons item rest ih =>
      obtain ⟨hitem, hrest⟩ := List.forall_mem_cons.mp houtside
      exact (ih hrest).trans (writeBytes_of_notMem hitem)

/-- Targets that are apart from each other and from all sources get what the sources held
in the beginning. -/
theorem copyAll_apply
    (htargets : items.Pairwise fun left right =>
      target left + size left ≤ target right ∨ target right + size right ≤ target left)
    (hsources : ∀ left ∈ items, ∀ right ∈ items,
      source left + size left ≤ target right ∨ target right + size right ≤ source left)
    {item : ι} (hmem : item ∈ items) {index : ℕ} (hindex : index < size item) :
    copyAll target source size items memory (target item + index) =
      memory (source item + index) := by
  induction items generalizing memory with
  | nil => exact absurd hmem List.not_mem_nil
  | cons first rest ih =>
      obtain ⟨hfirst, hrest⟩ := List.pairwise_cons.mp htargets
      rcases List.mem_cons.mp hmem with rfl | hmem
      · have houtside : ∀ other ∈ rest, target item + index < target other ∨
            target other + size other ≤ target item + index := fun other hother => by
          have hapart := hfirst other hother
          omega
        refine (copyAll_of_notMem houtside).trans ((writeBytes_of_mem (Nat.le_add_right _ _)
          (Nat.add_lt_add_left hindex _)).trans ?_)
        rw [Nat.add_sub_cancel_left]
      · refine (ih hrest (fun left hleft right hright => hsources left
          (List.mem_cons_of_mem _ hleft) right (List.mem_cons_of_mem _ hright)) hmem).trans ?_
        have hapart := hsources item (List.mem_cons_of_mem _ hmem) first List.mem_cons_self
        exact writeBytes_of_notMem (by omega)

end Copies

/-! ## Memories given by words -/

/-- The memory that holds the listed words at aligned addresses and zero
everywhere else. -/
def ofWords (words : List (ℕ × ℕ)) : Memory := fun position =>
  byteOf ((words.lookup (position / 4 * 4)).getD 0) (position % 4)

end GeexOS.ByteMemory
