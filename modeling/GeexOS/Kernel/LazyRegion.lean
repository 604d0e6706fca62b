import GeexOS.Kernel.FrameRuns
import GeexOS.Kernel.Paging

/-!
# Lazily mapped memory regions

A region gets a frame for a page when the page is needed and gives it back when
the page is unmapped.  An address that translates to zero counts as not mapped,
so a page on frame 0 is never given back.
-/

namespace GeexOS.LazyRegion

open GeexOS.Words
open GeexOS.Halting
open GeexOS.PhysicalAllocator
open GeexOS.PhysicalAllocator.BitfieldPhysicalMemoryAllocator
open GeexOS.Paging

/-- The region, without its name. -/
structure VirtualMemoryRegion where
  startAddress : ℕ
  size : ℕ
  flags : ℕ

def allocFlagUsermode : ℕ := 0x01

def allocFlagWritable : ℕ := 0x02

/-- The part of the kernel's state that mapping changes. -/
structure PagedMemory where
  paging : X86Paging
  allocator : BitfieldPhysicalMemoryAllocator

def notAligned : Halt := .assertion
  "Start address and length of region to be equipped with fresh pages must be page aligned"

def outOfBounds : Halt := .panic "Arguments out of bounds"

/-- `VirtualMemoryRegion::HandlePageFault`. -/
def notResolved : Halt := .panic <|
  "PageFault occured at << hex << faultingAddress << in VirtualMemoryRegion << name << " ++
  "and it couldn't be resolved by any class lying over this. Bad for you!"

namespace VirtualMemoryRegion

/-- One turn of the loop of `MapFreshPages`. -/
def mapFreshPage (region : VirtualMemoryRegion) (i : ℕ) (memory : PagedMemory) :
    Outcome PagedMemory := do
  let (frame, allocator) ← memory.allocator.allocateFrame true
  let paging ← memory.paging.mapAddress i frame
    (region.flags &&& allocFlagWritable != 0) (region.flags &&& allocFlagUsermode != 0)
  .ok ⟨paging, allocator⟩

/-- One turn of the loop of `UnmapPages`. -/
def unmapPage (i : ℕ) (memory : PagedMemory) : Outcome PagedMemory :=
  let phys := memory.paging.getPhysicalAddress i
  if phys ≠ 0 then do
    let paging ← memory.paging.unmapAddress i
    let allocator ← memory.allocator.deallocateFrame phys
    .ok ⟨paging, allocator⟩
  else .ok memory

/-- `for(Address i = start; i < limit; i += PAGE_SIZE)`; a 32-bit address space
has `2^20` pages. -/
def pageLoop (body : ℕ → PagedMemory → Outcome PagedMemory) (limit : ℕ) :
    (fuel i : ℕ) → PagedMemory → Outcome PagedMemory
  | 0, _, _ => .error .diverges
  | fuel + 1, i, memory =>
      if i < limit then do
        let memory ← body i memory
        pageLoop body limit fuel (u32 (i + pageSize)) memory
      else .ok memory

/-- The checks and the loop that the two functions share. -/
def forPages (region : VirtualMemoryRegion) (body : ℕ → PagedMemory → Outcome PagedMemory)
    (start length : ℕ) (memory : PagedMemory) : Outcome PagedMemory :=
  if start % pageSize ≠ 0 ∨ length % pageSize ≠ 0 then .error notAligned
  else if start < region.startAddress ∨
      u32 (start + length) > u32 (region.startAddress + region.size) then
    .error outOfBounds
  else pageLoop body (u32 (start + length)) (2 ^ 20 + 1) start memory

def mapFreshPages (region : VirtualMemoryRegion) (start length : ℕ) (memory : PagedMemory) :
    Outcome PagedMemory :=
  region.forPages region.mapFreshPage start length memory

def unmapPages (region : VirtualMemoryRegion) (start length : ℕ) (memory : PagedMemory) :
    Outcome PagedMemory :=
  region.forPages unmapPage start length memory

/-- `LazyMemoryRegion::HandlePageFault`; a present page is handed up to the
handler that panics. -/
def handlePageFault (region : VirtualMemoryRegion) (faultingAddress : ℕ)
    (memory : PagedMemory) : Outcome PagedMemory :=
  if memory.paging.isPresent faultingAddress then
    .error notResolved
  else region.mapFreshPages (faultingAddress &&& 0xFFFFF000) pageSize memory

/-- A page of the region. -/
def Has (region : VirtualMemoryRegion) (page : ℕ) : Prop :=
  region.startAddress ≤ page * pageSize ∧
    page * pageSize < region.startAddress + region.size ∧ page < 2 ^ 20

end VirtualMemoryRegion

open VirtualMemoryRegion

/-- The frame a page is mapped to. -/
def frameOf (memory : PagedMemory) (page : ℕ) : Option ℕ :=
  (entryOf memory.paging page).map fun entry => entry.frame.toNat

/-- What the constructor of a region asserts, and the ranges of its fields. -/
structure Placed (region : VirtualMemoryRegion) : Prop where
  start_aligned : pageSize ∣ region.startAddress
  size_aligned : pageSize ∣ region.size
  start_lt : region.startAddress < 2 ^ 32
  size_lt : region.size < 2 ^ 32

/-- Mapped pages of the region have frames of their own. -/
structure Invariant (region : VirtualMemoryRegion) (memory : PagedMemory) : Prop where
  paging : Paging.WellFormed memory.paging
  allocator : memory.allocator.WellFormed
  nFrames_lt : memory.allocator.nFrames < 2 ^ 20
  below : ∀ page frame, region.Has page → frameOf memory page = some frame →
    page * pageSize < u32 (region.startAddress + region.size)
  used : ∀ page frame, region.Has page → frameOf memory page = some frame →
    frame < memory.allocator.nFrames ∧ memory.allocator.Used frame
  distinct : ∀ left right frame, region.Has left → region.Has right →
    frameOf memory left = some frame → frameOf memory right = some frame → left = right

variable {region : VirtualMemoryRegion} {memory memory' : PagedMemory}
variable {page frame limit fuel : ℕ}

theorem frame_eq_of_frameAddress {entry : X86Page}
    (haddress : entry.frameAddress = frame * pageSize) : entry.frame.toNat = frame := by
  rw [X86Page.frameAddress, Nat.shiftLeft_eq] at haddress
  exact Nat.eq_of_mul_eq_mul_right (by decide) haddress

/-- An aligned address translates to the address of its frame. -/
theorem getPhysicalAddress_page (memory : PagedMemory) (page : ℕ) :
    memory.paging.getPhysicalAddress (page * pageSize) =
      match frameOf memory page with
      | some frame => frame * pageSize
      | none => 0 := by
  have hpage : pageOf (page * pageSize) = page := Nat.mul_div_cancel page (by decide)
  have hoffset : page * pageSize &&& 0xFFF = 0 := by
    rw [offset_eq]
    exact Nat.mul_mod_left page pageSize
  rw [getPhysicalAddress_eq, hpage, hoffset, frameOf]
  cases entryOf memory.paging page with
  | none => rfl
  | some entry =>
      simp only [Option.map_some, Nat.add_zero, X86Page.frameAddress, Nat.shiftLeft_eq]
      rfl

/-- One more page of the region is mapped. -/
theorem Invariant.mapFreshPage (hmemory : Invariant region memory) (hpage : region.Has page)
    (hbelow : page * pageSize < u32 (region.startAddress + region.size))
    (hcall : region.mapFreshPage (page * pageSize) memory = .ok memory') :
    Invariant region memory' := by
  obtain ⟨⟨address, allocator⟩, hallocate, hrest⟩ := bind_eq_ok.mp hcall
  obtain ⟨frame, hframe, haddress, hclear, hmarked⟩ :=
    allocateFrame_eq_ok hmemory.allocator hallocate
  have hsmall := hmemory.nFrames_lt
  have hvirt : page * pageSize < 2 ^ 32 := by
    have hlast := hpage.2.2
    simp only [pageSize]
    omega
  obtain ⟨paging, entry, hmap, hpaging, hentry, _, _, hentries⟩ :=
    hmemory.paging.mapAddress hvirt address (region.flags &&& allocFlagWritable != 0)
      (region.flags &&& allocFlagUsermode != 0)
  simp only [hmap, ok_bind, Except.ok.injEq] at hrest
  subst hrest
  have hpageOf : pageOf (page * pageSize) = page := Nat.mul_div_cancel page (by decide)
  have hwhole : entry.frame.toNat = frame := by
    apply frame_eq_of_frameAddress
    have hbytes : frame * pageSize < 2 ^ 32 := by
      simp only [pageSize]
      omega
    have hmask : (0xFFFFF000 : ℕ) = 2 ^ 32 - 2 ^ 12 := by decide
    rw [hentry, haddress, u32_of_lt hbytes, hmask, land_mask hbytes (by norm_num)]
    exact congrArg (· * pageSize) (Nat.mul_div_cancel frame (by decide))
  have hframes : ∀ other < 2 ^ 20, frameOf ⟨paging, allocator⟩ other =
      if other = page then some frame else frameOf memory other := by
    intro other hother
    rw [frameOf, frameOf, hentries other hother, hpageOf]
    split
    · rw [Option.map_some, hwhole]
    · rfl
  refine ⟨hpaging, hmarked.wellFormed, hmarked.nFrames_eq ▸ hsmall, ?_, ?_, ?_⟩
  · intro other otherFrame hhas hmapped
    rw [hframes other hhas.2.2] at hmapped
    split at hmapped
    · rename_i heq
      rwa [heq]
    · exact hmemory.below other otherFrame hhas hmapped
  · intro other otherFrame hhas hmapped
    rw [hframes other hhas.2.2] at hmapped
    simp only [hmarked.nFrames_eq, hmarked.used_iff]
    split at hmapped
    · rw [Option.some.injEq] at hmapped
      exact ⟨hmapped ▸ hframe, Or.inl hmapped.symm⟩
    · have hused := hmemory.used other otherFrame hhas hmapped
      exact ⟨hused.1, Or.inr hused.2⟩
  · intro left right otherFrame hleft hright hfirst hsecond
    rw [hframes left hleft.2.2] at hfirst
    rw [hframes right hright.2.2] at hsecond
    split at hfirst <;> split at hsecond
    · rename_i hleftEq hrightEq
      rw [hleftEq, hrightEq]
    · -- the frame was in use before, so it was not handed out
      rw [Option.some.injEq] at hfirst
      exact absurd (hfirst ▸ (hmemory.used right otherFrame hright hsecond).2) hclear
    · rw [Option.some.injEq] at hsecond
      exact absurd (hsecond ▸ (hmemory.used left otherFrame hleft hfirst).2) hclear
    · exact hmemory.distinct left right otherFrame hleft hright hfirst hsecond

/-- The pages `[first, last)` lose their mappings, except for those on frame 0,
and the frames are given back. -/
structure Unmaps (before after : PagedMemory) (first last : ℕ) : Prop where
  nFrames_eq : after.allocator.nFrames = before.allocator.nFrames
  frameOf_eq : ∀ page < 2 ^ 20, frameOf after page =
    if (first ≤ page ∧ page < last) ∧ frameOf before page ≠ some 0 then none
    else frameOf before page
  used_iff : ∀ frame, after.allocator.Used frame ↔ before.allocator.Used frame ∧
    ¬ ∃ page, (first ≤ page ∧ page < last) ∧ frameOf before page = some frame ∧ frame ≠ 0

theorem Unmaps.none (memory : PagedMemory) {first last : ℕ}
    (hnone : ∀ page, first ≤ page → page < last →
      frameOf memory page = none ∨ frameOf memory page = some 0) :
    Unmaps memory memory first last where
  nFrames_eq := rfl
  frameOf_eq := fun page _ => by
    split
    · rename_i hinside
      exact (hnone page hinside.1.1 hinside.1.2).resolve_right hinside.2
    · rfl
  used_iff := fun frame => by
    refine (and_iff_left ?_).symm
    rintro ⟨page, hinside, hmapped, hnonzero⟩
    rcases hnone page hinside.1 hinside.2 with hfree | hzero
    · rw [hfree] at hmapped
      exact absurd hmapped (by simp)
    · rw [hzero, Option.some.injEq] at hmapped
      exact hnonzero hmapped.symm

/-- The mapped frames of fewer pages are still in use. -/
theorem Invariant.shrink (hmemory : Invariant region memory)
    (hpaging : Paging.WellFormed memory'.paging) (hallocator : memory'.allocator.WellFormed)
    {first last : ℕ} (hhas : ∀ page, first ≤ page → page < last → region.Has page)
    (hunmaps : Unmaps memory memory' first last) : Invariant region memory' := by
  have hkept : ∀ page frame, region.Has page → frameOf memory' page = some frame →
      frameOf memory page = some frame ∧
        ¬ ((first ≤ page ∧ page < last) ∧ frameOf memory page ≠ some 0) := by
    intro page frame hpage hmapped
    rw [hunmaps.frameOf_eq page hpage.2.2] at hmapped
    split at hmapped
    · exact absurd hmapped (by simp)
    · rename_i hout
      exact ⟨hmapped, hout⟩
  refine ⟨hpaging, hallocator, hunmaps.nFrames_eq ▸ hmemory.nFrames_lt, ?_, ?_, ?_⟩
  · exact fun page frame hpage hmapped =>
      hmemory.below page frame hpage (hkept page frame hpage hmapped).1
  · intro page frame hpage hmapped
    obtain ⟨hbefore, hout⟩ := hkept page frame hpage hmapped
    obtain ⟨hframe, hused⟩ := hmemory.used page frame hpage hbefore
    refine ⟨hunmaps.nFrames_eq ▸ hframe, (hunmaps.used_iff frame).mpr ⟨hused, ?_⟩⟩
    rintro ⟨other, hinside, hother, hnonzero⟩
    -- the frame belongs to one page, and this one was not unmapped
    have hsame := hmemory.distinct page other frame hpage
      (hhas other hinside.1 hinside.2) hbefore hother
    rw [← hsame] at hinside
    refine hout ⟨hinside, ?_⟩
    rw [hbefore, Ne, Option.some.injEq]
    exact hnonzero
  · exact fun left right frame hleft hright hfirst hsecond =>
      hmemory.distinct left right frame hleft hright (hkept left frame hleft hfirst).1
        (hkept right frame hright hsecond).1

/-- One page of the region is unmapped if it translates to anything but zero. -/
theorem Invariant.unmapPage (hmemory : Invariant region memory) (hpage : region.Has page) :
    ∃ memory', VirtualMemoryRegion.unmapPage (page * pageSize) memory = .ok memory' ∧
      Invariant region memory' ∧ Unmaps memory memory' page (page + 1) := by
  have hone : ∀ other, page ≤ other → other < page + 1 → other = page := fun other _ _ => by
    omega
  have hphysical := getPhysicalAddress_page memory page
  rw [VirtualMemoryRegion.unmapPage]
  by_cases hzero : frameOf memory page = none ∨ frameOf memory page = some 0
  · have hunmapped : memory.paging.getPhysicalAddress (page * pageSize) = 0 := by
      rcases hzero with hfree | hzero
      · rw [hphysical, hfree]
      · rw [hphysical, hzero]
        exact Nat.zero_mul pageSize
    simp only [hunmapped, ne_eq, not_true_eq_false, if_false]
    refine ⟨memory, rfl, hmemory, Unmaps.none memory fun other hlow hhigh => ?_⟩
    rw [hone other hlow hhigh]
    exact hzero
  · rw [not_or] at hzero
    obtain ⟨frame, hframe⟩ := Option.ne_none_iff_exists'.mp hzero.1
    have hnonzero : frame ≠ 0 := fun heq => hzero.2 (heq ▸ hframe)
    obtain ⟨hbound, hused⟩ := hmemory.used page frame hpage hframe
    have hvirt : page * pageSize < 2 ^ 32 := by
      have hlast := hpage.2.2
      simp only [pageSize]
      omega
    have hphys : memory.paging.getPhysicalAddress (page * pageSize) = frame * pageSize := by
      rw [hphysical, hframe]
    have hmapped : frame * pageSize ≠ 0 := Nat.mul_ne_zero hnonzero (by decide)
    have hindex : frame * pageSize / pageSize = frame := Nat.mul_div_cancel frame (by decide)
    have hpageOf : pageOf (page * pageSize) = page := Nat.mul_div_cancel page (by decide)
    obtain ⟨paging, hunmap, hpaging, hentries⟩ := hmemory.paging.unmapAddress hvirt
    obtain ⟨bits, hclear, _⟩ := DataStructures.Bitfield.clearBit_of_lt
      (show frame < memory.allocator.frames.numElements from
        hbound.trans_eq hmemory.allocator.symm)
    have hdeallocate : memory.allocator.deallocateFrame (frame * pageSize) =
        .ok { memory.allocator with frames := bits } := by
      rw [deallocateFrame, hindex, hclear]
      rfl
    obtain ⟨hcount, hallocator, husedIff⟩ :=
      deallocateFrame_eq_ok hmemory.allocator hdeallocate
    have hunmaps : Unmaps memory ⟨paging, { memory.allocator with frames := bits }⟩ page
        (page + 1) := by
      refine ⟨hcount, fun other hother => ?_, fun other => ?_⟩
      · rw [frameOf, hentries other hother, hpageOf]
        by_cases heq : other = page
        · rw [if_pos heq, if_pos ⟨by omega, heq ▸ hzero.2⟩]
          rfl
        · rw [if_neg heq, if_neg (fun hboth => heq (hone other hboth.1.1 hboth.1.2)), frameOf]
      · rw [husedIff, hindex, and_comm]
        refine and_congr_right fun _ => not_congr ⟨fun heq => ?_, ?_⟩
        · exact ⟨page, by omega, heq ▸ hframe, heq ▸ hnonzero⟩
        · rintro ⟨other', hinside, hother', _⟩
          rw [hone other' hinside.1 hinside.2, hframe, Option.some.injEq] at hother'
          exact hother'.symm
    simp only [hphys, ne_eq, hmapped, not_false_eq_true, if_true, hunmap, hdeallocate, ok_bind]
    refine ⟨_, rfl, hmemory.shrink hpaging hallocator ?_ hunmaps, hunmaps⟩
    intro other hlow hhigh
    rw [hone other hlow hhigh]
    exact hpage

/-! ## The loops -/

/-- The address of the next page, inside the address space. -/
theorem u32_next {last : ℕ} (hlast : last < 2 ^ 20) (hmore : page < last) :
    u32 (page * pageSize + pageSize) = (page + 1) * pageSize := by
  rw [← Nat.succ_mul]
  exact u32_of_lt (by simp only [pageSize]; omega)

theorem mul_pageSize_lt_iff {left right : ℕ} :
    left * pageSize < right * pageSize ↔ left < right :=
  Nat.mul_lt_mul_right (by decide)

theorem Invariant.mapLoop {last : ℕ} (hmemory : Invariant region memory)
    (hlast : last < 2 ^ 20)
    (hhas : ∀ other, page ≤ other → other < last → region.Has other ∧
      other * pageSize < u32 (region.startAddress + region.size))
    (hloop : pageLoop region.mapFreshPage (last * pageSize) fuel (page * pageSize) memory =
      .ok memory') : Invariant region memory' := by
  induction fuel generalizing page memory with
  | zero => simp [pageLoop] at hloop
  | succ fuel ih =>
      rw [pageLoop] at hloop
      split at hloop
      · rename_i hmore
        rw [mul_pageSize_lt_iff] at hmore
        obtain ⟨middle, hpage, hrest⟩ := bind_eq_ok.mp hloop
        rw [u32_next hlast hmore] at hrest
        obtain ⟨hfirst, hbelow⟩ := hhas page le_rfl hmore
        exact ih (hmemory.mapFreshPage hfirst hbelow hpage)
          (fun other hlow => hhas other (by omega)) hrest
      · rw [Except.ok.injEq] at hloop
        exact hloop ▸ hmemory

theorem Unmaps.trans {middle : PagedMemory} {first next last : ℕ}
    (hfirst : Unmaps memory middle first next) (hsecond : Unmaps middle memory' next last)
    (hlow : first ≤ next) (hhigh : next ≤ last) (hlast : last ≤ 2 ^ 20) :
    Unmaps memory memory' first last := by
  refine ⟨hsecond.nFrames_eq.trans hfirst.nFrames_eq, fun page hpage => ?_, fun frame => ?_⟩
  · rw [hsecond.frameOf_eq page hpage, hfirst.frameOf_eq page hpage]
    by_cases hleft : (first ≤ page ∧ page < next) ∧ frameOf memory page ≠ some 0
    · have hwhole : (first ≤ page ∧ page < last) ∧ frameOf memory page ≠ some 0 :=
        ⟨by omega, hleft.2⟩
      rw [if_pos hleft, if_pos hwhole, ite_self]
    · rw [if_neg hleft]
      refine if_congr ⟨fun hboth => ⟨by omega, hboth.2⟩, fun hboth => ⟨?_, hboth.2⟩⟩ rfl rfl
      have hbehind : ¬ (first ≤ page ∧ page < next) := fun hinside => hleft ⟨hinside, hboth.2⟩
      omega
  · rw [hsecond.used_iff, hfirst.used_iff, and_assoc, ← not_or]
    refine and_congr_right fun _ => not_congr ⟨?_, ?_⟩
    · rintro (⟨page, hinside, hmapped⟩ | ⟨page, hinside, hmapped, hnonzero⟩)
      · exact ⟨page, by omega, hmapped⟩
      · rw [hfirst.frameOf_eq page (by omega), if_neg (by omega)] at hmapped
        exact ⟨page, by omega, hmapped, hnonzero⟩
    · rintro ⟨page, hinside, hmapped, hnonzero⟩
      rcases Nat.lt_or_ge page next with hleft | hright
      · exact Or.inl ⟨page, by omega, hmapped, hnonzero⟩
      · refine Or.inr ⟨page, by omega, ?_, hnonzero⟩
        rw [hfirst.frameOf_eq page (by omega), if_neg (by omega)]
        exact hmapped

theorem Invariant.unmapLoop {last : ℕ} (hmemory : Invariant region memory)
    (hlast : last < 2 ^ 20) (hfuel : last - page < fuel) (hstart : page ≤ last)
    (hhas : ∀ other, page ≤ other → other < last → region.Has other) :
    ∃ memory', pageLoop VirtualMemoryRegion.unmapPage (last * pageSize) fuel
        (page * pageSize) memory = .ok memory' ∧
      Invariant region memory' ∧ Unmaps memory memory' page last := by
  induction fuel generalizing page memory with
  | zero => exact absurd hfuel (Nat.not_lt_zero _)
  | succ fuel ih =>
      rw [pageLoop]
      split
      · rename_i hmore
        rw [mul_pageSize_lt_iff] at hmore
        obtain ⟨middle, hpage, hmiddle, hone⟩ := hmemory.unmapPage (hhas page le_rfl hmore)
        obtain ⟨memory', hrest, hmemory', hlater⟩ := ih hmiddle (by omega) hmore
          fun other hlow => hhas other (by omega)
        refine ⟨memory', ?_, hmemory', hone.trans hlater (by omega) hmore hlast.le⟩
        rw [hpage, ok_bind, u32_next hlast hmore]
        exact hrest
      · rename_i hdone
        rw [mul_pageSize_lt_iff] at hdone
        exact ⟨memory, rfl, hmemory, Unmaps.none memory fun other _ _ => by omega⟩

end GeexOS.LazyRegion
