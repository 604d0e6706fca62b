import GeexOS.Library.ByteMemory
import GeexOS.Loader.FirmwareMap

/-!
# The two implementations of memmove

Loader and kernel copy upwards if the destination lies in front of the source and
downwards otherwise.  The kernel starts downward copies at the last byte of the
regions, the loader behind it.
-/

namespace GeexOS.Memmove

open GeexOS.ByteMemory
open GeexOS.Words

/-- `while(count--) *d++ = *s++`. -/
def copyUp : (count d s : ℕ) → Memory → Memory
  | 0, _, _, memory => memory
  | count + 1, d, s, memory =>
      copyUp count (u32 (d + 1)) (u32 (s + 1)) (Function.update memory d (memory s))

/-- `while(count--) *d-- = *s--`. -/
def copyDown : (count d s : ℕ) → Memory → Memory
  | 0, _, _, memory => memory
  | count + 1, d, s, memory =>
      copyDown count (sub32 d 1) (sub32 s 1) (Function.update memory d (memory s))

/-- `memmove` of the loader. -/
def Loader.memmove (memory : Memory) (dest src count : ℕ) : ℕ × Memory :=
  if dest < src then (dest, copyUp count dest src memory)
  else (dest, copyDown count (u32 (dest + count)) (u32 (src + count)) memory)

/-- `memmove` of the kernel. -/
def Kernel.memmove (memory : Memory) (dest src count : ℕ) : ℕ × Memory :=
  if src ≠ dest then
    if src > dest then (dest, copyUp count dest src memory)
    else (dest, copyDown count (u32 (dest + sub32 count 1)) (u32 (src + sub32 count 1)) memory)
  else (dest, memory)

/-- The destination holds what the source held, and nothing else has changed. -/
structure Moved (memory : Memory) (dest src count : ℕ) (memory' : Memory) : Prop where
  inside : ∀ index < count, memory' (dest + index) = memory (src + index)
  outside : ∀ position, position < dest ∨ dest + count ≤ position →
    memory' position = memory position

variable {memory memory' : Memory} {dest src count d s : ℕ}

theorem moved_zero : Moved memory dest src 0 memory :=
  ⟨fun index hindex => absurd hindex (Nat.not_lt_zero index), fun _ _ => rfl⟩

theorem moved_self : Moved memory dest dest count memory :=
  ⟨fun _ _ => rfl, fun _ _ => rfl⟩

/-! ## Loops -/

/-- The lowest byte first: it may lie in the source only where it has been read. -/
theorem Moved.first (hmoved : Moved (Function.update memory d (memory s)) (d + 1) (s + 1) count
      memory') (hle : d ≤ s) : Moved memory d s (count + 1) memory' where
  inside := by
    intro index hindex
    cases index with
    | zero =>
        rw [Nat.add_zero, Nat.add_zero, hmoved.outside d (by omega), Function.update_self]
    | succ index =>
        have hrest := hmoved.inside index (by omega)
        rw [Function.update_of_ne (by omega)] at hrest
        rwa [show d + (index + 1) = d + 1 + index by omega,
          show s + (index + 1) = s + 1 + index by omega]
  outside := by
    intro position hposition
    rw [hmoved.outside position (by omega), Function.update_of_ne (by omega)]

/-- The highest byte first. -/
theorem Moved.last (hmoved : Moved (Function.update memory (d + count) (memory (s + count))) d s
      count memory') (hle : s ≤ d) : Moved memory d s (count + 1) memory' where
  inside := by
    intro index hindex
    rcases Nat.lt_succ_iff_lt_or_eq.mp hindex with hlt | rfl
    · rw [hmoved.inside index hlt, Function.update_of_ne (by omega)]
    · rw [hmoved.outside _ (by omega), Function.update_self]
  outside := by
    intro position hposition
    rw [hmoved.outside position (by omega), Function.update_of_ne (by omega)]

theorem copyUp_moved (hle : d ≤ s) (hs : s + count ≤ 2 ^ 32) :
    Moved memory d s count (copyUp count d s memory) := by
  induction count generalizing d s memory with
  | zero => exact moved_zero
  | succ count ih =>
      rw [copyUp]
      refine Moved.first ?_ hle
      cases count with
      | zero => exact moved_zero
      | succ count =>
          rw [u32_of_lt (by omega), u32_of_lt (by omega)]
          exact ih (by omega) (by omega)

theorem sub32_one {value : ℕ} (hvalue : value + 1 < 2 ^ 32) : sub32 (value + 1) 1 = value := by
  rw [sub32_of_le hvalue (by omega), Nat.add_sub_cancel]

theorem copyDown_moved (hle : s ≤ d) (hd : d + count < 2 ^ 32) :
    Moved memory d s (count + 1) (copyDown (count + 1) (d + count) (s + count) memory) := by
  induction count generalizing memory with
  | zero => exact Moved.last moved_zero hle
  | succ count ih =>
      rw [copyDown]
      refine Moved.last ?_ hle
      rw [← Nat.add_assoc, ← Nat.add_assoc, sub32_one (by omega), sub32_one (by omega)]
      exact ih (by omega)

/-! ## The kernel -/

/-- The kernel's function moves. -/
theorem Kernel.memmove_moved (hdest : dest + count ≤ 2 ^ 32) (hsrc : src + count ≤ 2 ^ 32) :
    (Kernel.memmove memory dest src count).1 = dest ∧
      Moved memory dest src count (Kernel.memmove memory dest src count).2 := by
  rw [Kernel.memmove]
  split
  · split
    · exact ⟨rfl, copyUp_moved (by omega) hsrc⟩
    · refine ⟨rfl, ?_⟩
      cases count with
      | zero => exact moved_zero
      | succ count =>
          rw [sub32_one (by omega), u32_of_lt (by omega), u32_of_lt (by omega)]
          exact copyDown_moved (by omega) (by omega)
  · obtain rfl : src = dest := by omega
    exact ⟨rfl, moved_self⟩

/-! ## The loader -/

/-- The downward copy of the loader: every byte goes one place further up than it should,
as seen from the first byte of the regions. -/
theorem Loader.memmove_down (hle : src ≤ dest) (hdest : dest + (count + 1) ≤ 2 ^ 32) :
    Moved (Function.update memory (u32 (dest + (count + 1))) (memory (u32 (src + (count + 1)))))
      (dest + 1) (src + 1) count (Loader.memmove memory dest src (count + 1)).2 := by
  have hback : ∀ start, start + (count + 1) ≤ 2 ^ 32 →
      sub32 (u32 (start + (count + 1))) 1 = start + count := by
    intro start hstart
    simp only [sub32, u32]
    omega
  rw [Loader.memmove, if_neg (not_lt.mpr hle)]
  simp only [copyDown]
  rw [hback dest hdest, hback src (by omega)]
  cases count with
  | zero => exact moved_zero
  | succ count =>
      rw [show dest + (count + 1) = dest + 1 + count by omega,
        show src + (count + 1) = src + 1 + count by omega]
      exact copyDown_moved (by omega) (by omega)

/-- The byte behind the region, where the addresses may start again. -/
def behind (start count : ℕ) : ℕ := u32 (start + count)

theorem behind_of_lt (hfits : dest + count < 2 ^ 32) : behind dest count = dest + count :=
  u32_of_lt hfits

theorem behind_outside (hcount : count < 2 ^ 32) (hdest : dest + count ≤ 2 ^ 32) :
    behind dest count < dest ∨ dest + count ≤ behind dest count := by
  simp only [behind, u32]
  omega

/-- What is at each place after a downward copy. -/
theorem Loader.memmove_down_apply (hle : src ≤ dest) (hcount : count + 1 < 2 ^ 32)
    (hdest : dest + (count + 1) ≤ 2 ^ 32) (position : ℕ) :
    (Loader.memmove memory dest src (count + 1)).2 position =
      if dest < position ∧ position < dest + (count + 1) then memory (src + (position - dest))
      else if position = behind dest (count + 1) then memory (behind src (count + 1))
      else memory position := by
  have hmoved : Moved _ _ _ _ (Loader.memmove memory dest src (count + 1)).2 :=
    Loader.memmove_down hle hdest
  have hbehind := behind_outside hcount hdest
  by_cases hinside : dest < position ∧ position < dest + (count + 1)
  · obtain ⟨index, rfl⟩ : ∃ index, position = dest + 1 + index :=
      ⟨position - (dest + 1), by omega⟩
    have hread : src + 1 + index ≠ behind dest (count + 1) := by
      simp only [behind, u32]
      omega
    rw [if_pos hinside, hmoved.inside index (by omega), ← behind, Function.update_of_ne hread]
    congr 1
    omega
  · rw [if_neg hinside, hmoved.outside position (by omega), ← behind, ← behind,
      Function.update_apply]

/-- A downward copy moves if the two bytes that it gets wrong are the same. -/
theorem Loader.memmove_down_moved_iff (hle : src ≤ dest) (hcount : count + 1 < 2 ^ 32)
    (hdest : dest + (count + 1) ≤ 2 ^ 32) :
    Moved memory dest src (count + 1) (Loader.memmove memory dest src (count + 1)).2 ↔
      memory dest = memory src ∧
        memory (behind dest (count + 1)) = memory (behind src (count + 1)) := by
  have happly : ∀ position, (Loader.memmove memory dest src (count + 1)).2 position = _ :=
    Loader.memmove_down_apply hle hcount hdest
  have hbehind := behind_outside hcount hdest
  have hdest_ne : dest ≠ behind dest (count + 1) := by omega
  constructor
  · intro hmoved
    constructor
    · have hfirst := hmoved.inside 0 (Nat.succ_pos count)
      simp only [Nat.add_zero] at hfirst
      rwa [happly, if_neg (by omega), if_neg hdest_ne] at hfirst
    · have hlast := hmoved.outside _ hbehind
      rw [happly, if_neg (by omega), if_pos rfl] at hlast
      exact hlast.symm
  · rintro ⟨hfirst, hlast⟩
    constructor
    · intro index hindex
      cases index with
      | zero =>
          simp only [Nat.add_zero]
          rw [happly, if_neg (by omega), if_neg hdest_ne, hfirst]
      | succ index =>
          rw [happly, if_pos (by omega), Nat.add_sub_cancel_left]
    · intro position hposition
      rw [happly, if_neg (by omega)]
      split
      · next hbehind_eq => rw [hbehind_eq, hlast]
      · rfl

/-- Both functions move, for regions in the address space, exactly where the loader copies
upwards or not at all, or the two bytes a downward copy of it gets wrong are the same. -/
theorem memmove_moves_iff (hcount : count < 2 ^ 32) (hdest : dest + count ≤ 2 ^ 32)
    (hsrc : src + count ≤ 2 ^ 32) :
    (Moved memory dest src count (Loader.memmove memory dest src count).2 ∧
      Moved memory dest src count (Kernel.memmove memory dest src count).2) ↔
      dest < src ∨ count = 0 ∨ (memory dest = memory src ∧
        memory (behind dest count) = memory (behind src count)) := by
  have hkernel : Moved memory dest src count (Kernel.memmove memory dest src count).2 :=
    (Kernel.memmove_moved hdest hsrc).2
  rw [and_iff_left hkernel]
  rcases Nat.lt_or_ge dest src with hlt | hle
  · have hup : Moved memory dest src count (Loader.memmove memory dest src count).2 := by
      rw [Loader.memmove, if_pos hlt]
      exact copyUp_moved hlt.le hsrc
    exact iff_of_true hup (Or.inl hlt)
  · cases count with
    | zero =>
        have hnothing : Moved memory dest src 0 (Loader.memmove memory dest src 0).2 := by
          rw [Loader.memmove, if_neg (not_lt.mpr hle)]
          exact moved_zero
        exact iff_of_true hnothing (Or.inr (Or.inl rfl))
    | succ count =>
        rw [Loader.memmove_down_moved_iff hle hcount hdest]
        simp [not_lt.mpr hle]

theorem memmove_moves_iff_overlapping :
    (Moved UInt8.ofNat 100 101 2 (Loader.memmove UInt8.ofNat 100 101 2).2 ∧
      Moved UInt8.ofNat 100 101 2 (Kernel.memmove UInt8.ofNat 100 101 2).2) ↔
      100 < 101 ∨ 2 = 0 ∨ (UInt8.ofNat 100 = UInt8.ofNat 101 ∧
        UInt8.ofNat (behind 100 2) = UInt8.ofNat (behind 101 2)) :=
  memmove_moves_iff (by norm_num) (by norm_num) (by norm_num)

/-- Two bytes, moved up by one in a memory where every byte is its address. -/
theorem loader_not_moved :
    ¬ (Moved UInt8.ofNat 101 100 2 (Loader.memmove UInt8.ofNat 101 100 2).2 ∧
      Moved UInt8.ofNat 101 100 2 (Kernel.memmove UInt8.ofNat 101 100 2).2) := by
  rintro ⟨hloader, -⟩
  have hfirst := hloader.inside 0 (by norm_num)
  revert hfirst
  decide

/-! ## Room in the firmware map

`memory_add_map_entry` moves the items behind the new one up by one slot.  What the
loader's function gets wrong of it are low bytes of types.
-/

section FirmwareMap

open GeexOS.FirmwareMap

/-- Where the compiler puts the words of a `FirmwareMemoryMapItem`, whose type comes
first. -/
structure ItemLayout where
  sizeof : ℕ
  basePage : ℕ
  pageCount : ℕ
  basePage_pos : 0 < basePage
  basePage_fits : basePage + 8 ≤ sizeof
  pageCount_pos : 0 < pageCount
  pageCount_fits : pageCount + 8 ≤ sizeof

variable {layout : ItemLayout} {map i c slot offset slots : ℕ}

def ItemLayout.slotAddress (layout : ItemLayout) (map slot : ℕ) : ℕ :=
  map + layout.sizeof * slot

/-- The pages of the items of a table in memory. -/
def HoldsPages (layout : ItemLayout) (memory : Memory) (map slots : ℕ)
    (items : ℕ → FirmwareMemoryMapItem) : Prop :=
  ∀ slot < slots,
    load64 memory (layout.slotAddress map slot + layout.basePage) = (items slot).basePage ∧
      load64 memory (layout.slotAddress map slot + layout.pageCount) = (items slot).pageCount

/-- `memmove(&map[i+1], &map[i], (c-i)*sizeof(map[0]))`. -/
def memmoveItems (layout : ItemLayout) (memory : Memory) (map i c : ℕ) : Memory :=
  (Loader.memmove memory (layout.slotAddress map (i + 1)) (layout.slotAddress map i)
    ((c - i) * layout.sizeof)).2

theorem slotAddress_succ (slot : ℕ) :
    layout.slotAddress map (slot + 1) = layout.slotAddress map slot + layout.sizeof := by
  simp only [ItemLayout.slotAddress, Nat.mul_succ, Nat.add_assoc]

theorem slotAddress_mono {slot' : ℕ} (hle : slot ≤ slot') :
    layout.slotAddress map slot ≤ layout.slotAddress map slot' :=
  Nat.add_le_add_left (Nat.mul_le_mul_left _ hle) _

theorem slotAddress_add_size (hle : i ≤ c) :
    layout.slotAddress map i + (c - i) * layout.sizeof = layout.slotAddress map c := by
  rw [ItemLayout.slotAddress, Nat.mul_comm (c - i), Nat.add_assoc, ← Nat.mul_add,
    Nat.add_sub_cancel' hle, ItemLayout.slotAddress]

/-- A byte inside a slot lies behind the starts of the slots up to this one. -/
theorem slotAddress_lt_iff (hpos : 0 < offset) (hoffset : offset < layout.sizeof) :
    layout.slotAddress map i < layout.slotAddress map slot + offset ↔ i ≤ slot := by
  constructor
  · intro hlt
    by_contra hgt
    have hnext : layout.slotAddress map (slot + 1) ≤ layout.slotAddress map i :=
      slotAddress_mono (by omega)
    rw [slotAddress_succ] at hnext
    omega
  · intro hle
    have hmono : layout.slotAddress map i ≤ layout.slotAddress map slot := slotAddress_mono hle
    omega

theorem slotAddress_ne (hpos : 0 < offset) (hoffset : offset < layout.sizeof) :
    layout.slotAddress map i ≠ layout.slotAddress map slot + offset := by
  intro heq
  have hgt : ¬ i ≤ slot := fun hle =>
    absurd heq ((slotAddress_lt_iff hpos hoffset).mpr hle).ne
  have hnext : layout.slotAddress map (slot + 1) ≤ layout.slotAddress map i :=
    slotAddress_mono (by omega)
  rw [slotAddress_succ] at hnext
  omega

/-- The move of the items, byte by byte. -/
theorem memmoveItems_position (hic : i < c) (hfits : layout.slotAddress map (c + 1) < 2 ^ 32)
    (position : ℕ) :
    memmoveItems layout memory map i c position =
      if layout.slotAddress map (i + 1) < position ∧
          position < layout.slotAddress map (c + 1) then
        memory (layout.slotAddress map i + (position - layout.slotAddress map (i + 1)))
      else if position = layout.slotAddress map (c + 1) then memory (layout.slotAddress map c)
      else memory position := by
  have hsize := layout.basePage_fits
  have hsrc : layout.slotAddress map i + (c - i) * layout.sizeof = layout.slotAddress map c :=
    slotAddress_add_size hic.le
  have hdest : layout.slotAddress map (i + 1) + (c - i) * layout.sizeof =
      layout.slotAddress map (c + 1) := by
    rw [slotAddress_succ, slotAddress_succ, Nat.add_right_comm, hsrc]
  have hbytes : (c - i) * layout.sizeof ≠ 0 := Nat.mul_ne_zero (by omega) (by omega)
  have hup : layout.slotAddress map i ≤ layout.slotAddress map (i + 1) :=
    slotAddress_mono (Nat.le_succ i)
  obtain ⟨n, hn⟩ := Nat.exists_eq_succ_of_ne_zero hbytes
  rw [hn] at hsrc hdest
  rw [memmoveItems, hn, Loader.memmove_down_apply hup (by omega) (by omega),
    behind_of_lt (by omega), behind_of_lt (by omega), hsrc, hdest]

/-- Behind its first byte an item is moved as a whole, or left alone. -/
theorem memmoveItems_apply (hic : i < c) (hfits : layout.slotAddress map (c + 1) < 2 ^ 32)
    (hpos : 0 < offset) (hoffset : offset < layout.sizeof) :
    memmoveItems layout memory map i c (layout.slotAddress map slot + offset) =
      if i < slot ∧ slot ≤ c then memory (layout.slotAddress map (slot - 1) + offset)
      else memory (layout.slotAddress map slot + offset) := by
  have hlast : layout.slotAddress map (c + 1) ≠ layout.slotAddress map slot + offset :=
    slotAddress_ne hpos hoffset
  have hinside : layout.slotAddress map (i + 1) < layout.slotAddress map slot + offset ∧
      layout.slotAddress map slot + offset < layout.slotAddress map (c + 1) ↔
      i < slot ∧ slot ≤ c := by
    have hbelow : layout.slotAddress map slot + offset < layout.slotAddress map (c + 1) ↔
        ¬ c + 1 ≤ slot := by
      rw [← slotAddress_lt_iff hpos hoffset, not_lt, le_iff_lt_or_eq, or_iff_left hlast.symm]
    rw [slotAddress_lt_iff hpos hoffset, hbelow]
    omega
  rw [memmoveItems_position hic hfits, if_neg hlast.symm]
  by_cases hmoved : i < slot ∧ slot ≤ c
  · have hback : layout.slotAddress map (slot - 1 + 1) =
        layout.slotAddress map (slot - 1) + layout.sizeof := slotAddress_succ _
    rw [Nat.sub_add_cancel (by omega)] at hback
    have hnext : layout.slotAddress map (i + 1) ≤ layout.slotAddress map slot :=
      slotAddress_mono hmoved.1
    rw [if_pos hmoved, if_pos (hinside.mpr hmoved)]
    congr 1
    rw [slotAddress_succ] at hnext ⊢
    omega
  · rw [if_neg hmoved, if_neg (mt hinside.mp hmoved)]

theorem memmoveItems_load64 (hic : i < c) (hfits : layout.slotAddress map (c + 1) < 2 ^ 32)
    (hpos : 0 < offset) (hoffset : offset + 8 ≤ layout.sizeof) :
    load64 (memmoveItems layout memory map i c) (layout.slotAddress map slot + offset) =
      if i < slot ∧ slot ≤ c then load64 memory (layout.slotAddress map (slot - 1) + offset)
      else load64 memory (layout.slotAddress map slot + offset) := by
  split
  · next hmoved =>
      refine load64_eq_of_bytes fun index hindex => ?_
      rw [Nat.add_assoc, memmoveItems_apply hic hfits (by omega) (by omega), if_pos hmoved,
        Nat.add_assoc]
  · next hmoved =>
      refine load64_eq_of_bytes fun index hindex => ?_
      rw [Nat.add_assoc, memmoveItems_apply hic hfits (by omega) (by omega), if_neg hmoved]

/-- The pages of the items are moved as the map's functions take it. -/
theorem HoldsPages.memmoveItems {items : ℕ → FirmwareMemoryMapItem}
    (hholds : HoldsPages layout memory map slots items) (hic : i < c) (hc : c < slots)
    (hfits : layout.slotAddress map slots < 2 ^ 32) :
    HoldsPages layout (memmoveItems layout memory map i c) map slots (moveDown items i c) := by
  have hend : layout.slotAddress map (c + 1) < 2 ^ 32 :=
    Nat.lt_of_le_of_lt (slotAddress_mono hc) hfits
  intro slot hslot
  rw [memmoveItems_load64 hic hend layout.basePage_pos layout.basePage_fits,
    memmoveItems_load64 hic hend layout.pageCount_pos layout.pageCount_fits, moveDown]
  split
  · exact hholds (slot - 1) (by omega)
  · exact hholds slot hslot

/-- The low byte of the type of the first item moved is that of the item that was in its
slot before. -/
theorem memmoveItems_type (hic : i < c) (hfits : layout.slotAddress map (c + 1) < 2 ^ 32) :
    memmoveItems layout memory map i c (layout.slotAddress map (i + 1)) =
      memory (layout.slotAddress map (i + 1)) := by
  have hlast : layout.slotAddress map (i + 1) ≠ layout.slotAddress map (c + 1) := by
    have hmono : layout.slotAddress map (i + 1) ≤ layout.slotAddress map c :=
      slotAddress_mono hic
    have hsize := layout.basePage_fits
    rw [slotAddress_succ c]
    omega
  rw [memmoveItems_position hic hfits, if_neg (fun hinside => lt_irrefl _ hinside.1),
    if_neg hlast]

end FirmwareMap

end GeexOS.Memmove
