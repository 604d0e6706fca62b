import GeexOS.Kernel.LazyRegion

/-!
# Runs of a lazily mapped region

In every state a run reaches, the mapped pages of a region have used frames of
their own.  `UnmapPages` gives all frames of a range back except for frame 0.
-/

namespace GeexOS.LazyRegion

open GeexOS.Words
open GeexOS.Halting
open GeexOS.PhysicalAllocator
open GeexOS.PhysicalAllocator.BitfieldPhysicalMemoryAllocator
open GeexOS.Paging
open VirtualMemoryRegion

inductive RegionCall where
  | handlePageFault (faultingAddress : ℕ)
  | mapFreshPages (start length : ℕ)
  | unmapPages (start length : ℕ)

def perform (region : VirtualMemoryRegion) : RegionCall → PagedMemory → Outcome PagedMemory
  | .handlePageFault faultingAddress => region.handlePageFault faultingAddress
  | .mapFreshPages start length => region.mapFreshPages start length
  | .unmapPages start length => region.unmapPages start length

/-- One call that comes back. -/
def RegionStep (region : VirtualMemoryRegion) (before after : PagedMemory) : Prop :=
  ∃ call, perform region call before = .ok after

/-- No page of the region is mapped, and any frames are in use. -/
structure Fresh (region : VirtualMemoryRegion) (memory : PagedMemory) : Prop where
  paging : Paging.WellFormed memory.paging
  allocator : ∃ memorySize taken,
    Relation.ReflTransGen FrameCall ⟨new memorySize, ∅⟩ ⟨memory.allocator, taken⟩
  absent : ∀ page, region.Has page → memory.paging.isPresent (page * pageSize) = false

/-- A range of whole pages of the region. -/
structure Within (region : VirtualMemoryRegion) (start length : ℕ) : Prop where
  start_aligned : pageSize ∣ start
  length_aligned : pageSize ∣ length
  start_le : region.startAddress ≤ start
  end_le : start + length ≤ region.startAddress + region.size

/-- A page of a range. -/
def InRange (start length page : ℕ) : Prop :=
  start ≤ page * pageSize ∧ page * pageSize < start + length ∧ page < 2 ^ 20

/-- No page of the range is present, and the frames it had are free. -/
def Released (before after : PagedMemory) (start length : ℕ) : Prop :=
  ∀ page, InRange start length page →
    after.paging.isPresent (page * pageSize) = false ∧
      (before.paging.isPresent (page * pageSize) = true →
        after.allocator.isFree (before.paging.getPhysicalAddress (page * pageSize)) = .ok true)

/-- No page of the range is on frame 0. -/
def AvoidsFrameZero (memory : PagedMemory) (start length : ℕ) : Prop :=
  ∀ page, InRange start length page → memory.paging.isPresent (page * pageSize) = true →
    memory.paging.getPhysicalAddress (page * pageSize) ≠ 0

/-- The region owns the frames of its pages. -/
structure OwnsFrames (region : VirtualMemoryRegion) (memory : PagedMemory) : Prop where
  used : ∀ page, region.Has page → memory.paging.isPresent (page * pageSize) = true →
    memory.allocator.isFree (memory.paging.getPhysicalAddress (page * pageSize)) = .ok false
  distinct : ∀ left right, region.Has left → region.Has right →
    memory.paging.isPresent (left * pageSize) = true →
    memory.paging.isPresent (right * pageSize) = true →
    memory.paging.getPhysicalAddress (left * pageSize) =
      memory.paging.getPhysicalAddress (right * pageSize) → left = right

variable {region : VirtualMemoryRegion} {memory memory' : PagedMemory}
variable {page frame start length : ℕ}

theorem page_lt (hpage : page < 2 ^ 20) : page * pageSize < 2 ^ 32 := by
  simp only [pageSize]
  omega

theorem isPresent_page (hpaging : Paging.WellFormed memory.paging) (hpage : page < 2 ^ 20) :
    memory.paging.isPresent (page * pageSize) = (frameOf memory page).isSome := by
  have hpageOf : pageOf (page * pageSize) = page := Nat.mul_div_cancel page (by decide)
  rw [hpaging.isPresent_eq (page_lt hpage), hpageOf, frameOf, Option.isSome_map]

/-- The frame of a present page. -/
theorem exists_frameOf (hpaging : Paging.WellFormed memory.paging) (hpage : page < 2 ^ 20)
    (hpresent : memory.paging.isPresent (page * pageSize) = true) :
    ∃ frame, frameOf memory page = some frame ∧
      memory.paging.getPhysicalAddress (page * pageSize) = frame * pageSize := by
  rw [isPresent_page hpaging hpage] at hpresent
  obtain ⟨frame, hframe⟩ := Option.isSome_iff_exists.mp hpresent
  exact ⟨frame, hframe, by rw [getPhysicalAddress_page, hframe]⟩

/-! ## Every call keeps the invariant -/

/-- The loop that a call comes down to, in pages. -/
theorem forPages_eq_ok {body : ℕ → PagedMemory → Outcome PagedMemory}
    (hcall : region.forPages body start length memory = .ok memory') :
    ∃ first last, start = first * pageSize ∧ u32 (start + length) = last * pageSize ∧
      last < 2 ^ 20 ∧
      (∀ page, first ≤ page → page < last → region.Has page ∧
        page * pageSize < u32 (region.startAddress + region.size)) ∧
      pageLoop body (last * pageSize) (2 ^ 20 + 1) (first * pageSize) memory = .ok memory' := by
  rw [forPages] at hcall
  split_ifs at hcall with haligned hbounds
  rw [not_or, not_not, not_not] at haligned
  rw [not_or, Nat.not_lt, Nat.not_lt] at hbounds
  obtain ⟨first, hfirst⟩ := Nat.dvd_of_mod_eq_zero haligned.1
  have hlimit : u32 (start + length) % pageSize = 0 := by
    have hstart := haligned.1
    have hlength := haligned.2
    simp only [u32, pageSize] at hstart hlength ⊢
    omega
  obtain ⟨last, hlast⟩ := Nat.dvd_of_mod_eq_zero hlimit
  rw [Nat.mul_comm] at hfirst hlast
  have hword : u32 (start + length) < 2 ^ 32 := u32_lt _
  have hlastLt : last < 2 ^ 20 := by
    simp only [pageSize] at hlast
    omega
  rw [hlast, hfirst] at hcall
  refine ⟨first, last, hfirst, hlast, hlastLt, fun page hlow hhigh => ?_, hcall⟩
  have hstart : start ≤ page * pageSize := hfirst.trans_le (Nat.mul_le_mul_right _ hlow)
  have hbelow : page * pageSize < u32 (region.startAddress + region.size) :=
    (mul_pageSize_lt_iff.mpr hhigh).trans_le (hlast ▸ hbounds.2)
  exact ⟨⟨hbounds.1.trans hstart, hbelow.trans_le (Nat.mod_le _ _), hhigh.trans hlastLt⟩, hbelow⟩

theorem Invariant.mapFreshPages (hmemory : Invariant region memory)
    (hcall : region.mapFreshPages start length memory = .ok memory') :
    Invariant region memory' := by
  obtain ⟨first, last, _, _, hlast, hhas, hloop⟩ := forPages_eq_ok hcall
  exact hmemory.mapLoop hlast hhas hloop

theorem Invariant.handlePageFault {faultingAddress : ℕ} (hmemory : Invariant region memory)
    (hcall : region.handlePageFault faultingAddress memory = .ok memory') :
    Invariant region memory' := by
  rw [VirtualMemoryRegion.handlePageFault] at hcall
  split at hcall
  · cases hcall
  · exact hmemory.mapFreshPages hcall

theorem Invariant.unmapPages (hmemory : Invariant region memory)
    (hcall : region.unmapPages start length memory = .ok memory') :
    ∃ first last, start = first * pageSize ∧ u32 (start + length) = last * pageSize ∧
      Invariant region memory' ∧ Unmaps memory memory' first last := by
  obtain ⟨first, last, hfirst, hlimit, hlast, hhas, hloop⟩ := forPages_eq_ok hcall
  refine ⟨first, last, hfirst, hlimit, ?_⟩
  rcases Nat.le_total first last with hforward | hbackward
  · have hfuel : last - first < 2 ^ 20 + 1 := by omega
    obtain ⟨after, hafter, hinvariant, hunmaps⟩ := hmemory.unmapLoop hlast hfuel hforward
      fun page hlow hhigh => (hhas page hlow hhigh).1
    rw [hafter, Except.ok.injEq] at hloop
    exact hloop ▸ ⟨hinvariant, hunmaps⟩
  · -- the end of the range lies at or before its start
    have hdone : ¬ first * pageSize < last * pageSize := by
      rw [mul_pageSize_lt_iff]
      omega
    rw [pageLoop, if_neg hdone, Except.ok.injEq] at hloop
    exact hloop ▸ ⟨hmemory, Unmaps.none memory fun page _ _ => by omega⟩

theorem RegionStep.invariant (hstep : RegionStep region memory memory')
    (hmemory : Invariant region memory) : Invariant region memory' := by
  obtain ⟨call, hcall⟩ := hstep
  cases call with
  | handlePageFault faultingAddress => exact hmemory.handlePageFault hcall
  | mapFreshPages start length => exact hmemory.mapFreshPages hcall
  | unmapPages start length =>
      obtain ⟨_, _, _, _, hinvariant, _⟩ := hmemory.unmapPages hcall
      exact hinvariant

theorem Fresh.invariant (hfresh : Fresh region memory) : Invariant region memory := by
  obtain ⟨memorySize, taken, hrun⟩ := hfresh.allocator
  have hrepresents := FrameCall.represents_run hrun (represents_new memorySize)
  have hunmapped : ∀ page frame, region.Has page → frameOf memory page ≠ some frame := by
    intro page frame hpage hframe
    have habsent := hfresh.absent page hpage
    rw [isPresent_page hfresh.paging hpage.2.2, hframe] at habsent
    cases habsent
  exact {
    paging := hfresh.paging
    allocator := hrepresents.wellFormed
    nFrames_lt := hrepresents.nFrames_lt
    below := fun page frame hpage hframe => absurd hframe (hunmapped page frame hpage)
    used := fun page frame hpage hframe => absurd hframe (hunmapped page frame hpage)
    distinct := fun left _ frame hleft _ hframe => absurd hframe (hunmapped left frame hleft) }

theorem Invariant.run (hrun : Relation.ReflTransGen (RegionStep region) memory memory')
    (hmemory : Invariant region memory) : Invariant region memory' := by
  induction hrun with
  | refl => exact hmemory
  | tail _ hstep ih => exact hstep.invariant ih

/-! ## What the invariant says about the pages -/

theorem isFree_frame {allocator : BitfieldPhysicalMemoryAllocator}
    (hallocator : allocator.WellFormed) (hframe : frame < allocator.nFrames) :
    allocator.isFree (frame * pageSize) = .ok (!allocator.frames.bit frame) := by
  have hindex : frame * pageSize / pageSize = frame := Nat.mul_div_cancel frame (by decide)
  rw [isFree_of_lt hallocator (by rwa [hindex]), hindex]

theorem Invariant.ownsFrames (hmemory : Invariant region memory) : OwnsFrames region memory where
  used := fun page hpage hpresent => by
    obtain ⟨frame, hframe, hphysical⟩ := exists_frameOf hmemory.paging hpage.2.2 hpresent
    obtain ⟨hbound, hused⟩ := hmemory.used page frame hpage hframe
    have hbit : memory.allocator.frames.bit frame = true := hused
    rw [hphysical, isFree_frame hmemory.allocator hbound, hbit]
    rfl
  distinct := fun left right hleft hright hfirst hsecond hsame => by
    obtain ⟨frame, hframe, hphysical⟩ := exists_frameOf hmemory.paging hleft.2.2 hfirst
    obtain ⟨other, hother, hphysical'⟩ := exists_frameOf hmemory.paging hright.2.2 hsecond
    rw [hphysical, hphysical'] at hsame
    have heq : frame = other := Nat.eq_of_mul_eq_mul_right (by decide) hsame
    exact hmemory.distinct left right frame hleft hright hframe (heq ▸ hother)

/-- A mapped page of the range is one the loop comes to. -/
theorem Invariant.lt_of_inRange (hplaced : Placed region) (hmemory : Invariant region memory)
    (hwithin : Within region start length) {last : ℕ}
    (hlimit : u32 (start + length) = last * pageSize) (hrange : InRange start length page)
    (hmapped : frameOf memory page = some frame) : page < last := by
  have hhas : region.Has page :=
    ⟨hwithin.start_le.trans hrange.1, hrange.2.1.trans_le hwithin.end_le, hrange.2.2⟩
  have hbelow := hmemory.below page frame hhas hmapped
  have hlow := hhas.1
  have hstartLt := hplaced.start_lt
  have hsizeLt := hplaced.size_lt
  -- a region that reaches the end of the address space has no mapped pages
  have hend : region.startAddress + region.size < 2 ^ 32 := by
    by_contra hwraps
    rw [u32_of_le (Nat.not_lt.mp hwraps) (by omega)] at hbelow
    omega
  have hlimitLt : start + length < 2 ^ 32 := hwithin.end_le.trans_lt hend
  rw [u32_of_lt hlimitLt] at hlimit
  rw [← mul_pageSize_lt_iff, ← hlimit]
  exact hrange.2.1

/-- `UnmapPages` comes back from every range of a region that ends inside the
address space. -/
theorem Invariant.exists_unmapPages (hmemory : Invariant region memory)
    (hend : region.startAddress + region.size < 2 ^ 32) (hwithin : Within region start length) :
    ∃ memory', region.unmapPages start length memory = .ok memory' := by
  have hlimitLt : start + length < 2 ^ 32 := hwithin.end_le.trans_lt hend
  have hbounds : ¬ (start < region.startAddress ∨
      u32 (start + length) > u32 (region.startAddress + region.size)) := by
    rw [u32_of_lt hlimitLt, u32_of_lt hend, not_or, Nat.not_lt, Nat.not_lt]
    exact ⟨hwithin.start_le, hwithin.end_le⟩
  have haligned : ¬ (start % pageSize ≠ 0 ∨ length % pageSize ≠ 0) := by
    rw [not_or, not_not, not_not]
    exact ⟨Nat.mod_eq_zero_of_dvd hwithin.start_aligned,
      Nat.mod_eq_zero_of_dvd hwithin.length_aligned⟩
  obtain ⟨first, rfl⟩ := hwithin.start_aligned
  obtain ⟨count, rfl⟩ := hwithin.length_aligned
  have hlimit : u32 (pageSize * first + pageSize * count) = (first + count) * pageSize := by
    rw [u32_of_lt hlimitLt, ← Nat.mul_add, Nat.mul_comm]
  have hlast : first + count < 2 ^ 20 := by
    simp only [pageSize] at hlimitLt
    omega
  have hhas : ∀ page, first ≤ page → page < first + count → region.Has page := by
    intro page hlow hhigh
    have hlower := hwithin.start_le
    have hupper := hwithin.end_le
    simp only [pageSize] at hlower hupper
    refine ⟨?_, ?_, hhigh.trans hlast⟩ <;> simp only [pageSize] <;> omega
  have hfuel : first + count - first < 2 ^ 20 + 1 := by omega
  obtain ⟨memory', hloop, _, _⟩ :=
    hmemory.unmapLoop hlast hfuel (Nat.le_add_right first count) hhas
  refine ⟨memory', ?_⟩
  rw [VirtualMemoryRegion.unmapPages, forPages, if_neg haligned, if_neg hbounds, hlimit,
    Nat.mul_comm pageSize first]
  exact hloop

/-- After `UnmapPages` the range is released if and only if none of its pages
was on frame 0. -/
theorem Invariant.released_iff (hplaced : Placed region) (hmemory : Invariant region memory)
    (hwithin : Within region start length)
    (hcall : region.unmapPages start length memory = .ok memory') :
    Released memory memory' start length ↔ AvoidsFrameZero memory start length := by
  obtain ⟨first, last, rfl, hlimit, hmemory', hunmaps⟩ := hmemory.unmapPages hcall
  have hhas : ∀ page, InRange (first * pageSize) length page → region.Has page :=
    fun page hrange =>
      ⟨hwithin.start_le.trans hrange.1, hrange.2.1.trans_le hwithin.end_le, hrange.2.2⟩
  have hfirst : ∀ page, InRange (first * pageSize) length page → first ≤ page :=
    fun page hrange => Nat.le_of_mul_le_mul_right hrange.1 (by decide)
  constructor
  · intro hreleased page hrange hpresent hzero
    obtain ⟨frame, hframe, hphysical⟩ := exists_frameOf hmemory.paging hrange.2.2 hpresent
    rw [hphysical] at hzero
    have hframeZero : frame = 0 := (Nat.mul_eq_zero.mp hzero).resolve_right (by decide)
    subst hframeZero
    have hkept : frameOf memory' page = some 0 := by
      rw [hunmaps.frameOf_eq page hrange.2.2, if_neg (fun hboth => hboth.2 hframe), hframe]
    have habsent := (hreleased page hrange).1
    rw [isPresent_page hmemory'.paging hrange.2.2, hkept] at habsent
    cases habsent
  · intro havoids page hrange
    rw [isPresent_page hmemory'.paging hrange.2.2, hunmaps.frameOf_eq page hrange.2.2]
    cases hframe : frameOf memory page with
    | none =>
        have habsent := isPresent_page hmemory.paging hrange.2.2
        rw [hframe] at habsent
        rw [ite_self, habsent]
        exact ⟨rfl, fun hpresent => by cases hpresent⟩
    | some frame =>
        have hpresent := isPresent_page hmemory.paging hrange.2.2
        rw [hframe] at hpresent
        have hphysical := getPhysicalAddress_page memory page
        rw [hframe] at hphysical
        have hnonzero : frame ≠ 0 := by
          rintro rfl
          exact havoids page hrange hpresent (hphysical.trans (Nat.zero_mul _))
        have hinside : first ≤ page ∧ page < last :=
          ⟨hfirst page hrange, hmemory.lt_of_inRange hplaced hwithin hlimit hrange hframe⟩
        have hbound := (hmemory.used page frame (hhas page hrange) hframe).1
        have hfree : memory'.allocator.frames.bit frame = false := by
          rw [← Bool.not_eq_true]
          intro hused
          exact ((hunmaps.used_iff frame).mp hused).2 ⟨page, hinside, hframe, hnonzero⟩
        refine ⟨?_, fun _ => ?_⟩
        · rw [if_pos ⟨hinside, by rwa [Ne, Option.some.injEq]⟩]
          rfl
        · rw [hphysical, isFree_frame hmemory'.allocator (hunmaps.nFrames_eq ▸ hbound), hfree]
          rfl

/-- In every run the frames of a region are its own, and `UnmapPages` releases
a range exactly if none of its pages is on frame 0. -/
theorem ownsFrames_of_run (hplaced : Placed region) (hfresh : Fresh region memory)
    (hrun : Relation.ReflTransGen (RegionStep region) memory memory') :
    OwnsFrames region memory' ∧
      ∀ start length, Within region start length →
        (region.startAddress + region.size < 2 ^ 32 →
          ∃ after, region.unmapPages start length memory' = .ok after) ∧
        ∀ after, region.unmapPages start length memory' = .ok after →
          (Released memory' after start length ↔ AvoidsFrameZero memory' start length) := by
  have hmemory' := hfresh.invariant.run hrun
  refine ⟨hmemory'.ownsFrames, fun start length hwithin => ⟨fun hend => ?_, fun after hcall => ?_⟩⟩
  · exact hmemory'.exists_unmapPages hend hwithin
  · exact hmemory'.released_iff hplaced hwithin hcall

/-- A writable region of one page. -/
def onePage : VirtualMemoryRegion := ⟨0x400000, 0x1000, allocFlagWritable⟩

/-- An empty directory and 32 free frames. -/
def emptyMemory : PagedMemory :=
  ⟨X86Paging.newDirectory (fun _ _ => X86Page.zero) fun call => call + 1, new 128⟩

theorem onePage_placed : Placed onePage where
  start_aligned := by decide
  size_aligned := by decide
  start_lt := by decide
  size_lt := by decide

theorem emptyMemory_fresh (region : VirtualMemoryRegion) : Fresh region emptyMemory where
  paging := wellFormed_newDirectory _ (fun call => Nat.succ_ne_zero call) Nat.succ_injective
  allocator := ⟨128, ∅, .refl⟩
  absent := fun _ _ => rfl

/-- The first fault gets frame 0. -/
theorem ownsFrames_of_run_onePage :
    ∃ memory, onePage.handlePageFault 0x400123 emptyMemory = .ok memory ∧
      OwnsFrames onePage memory :=
  ⟨_, rfl, (ownsFrames_of_run onePage_placed (emptyMemory_fresh onePage)
    (.single ⟨.handlePageFault 0x400123, rfl⟩)).1⟩

/-- After this fault the page cannot be unmapped. -/
theorem frameZero_not_released :
    ∃ memory after, Placed onePage ∧ Fresh onePage emptyMemory ∧
      Relation.ReflTransGen (RegionStep onePage) emptyMemory memory ∧
      Within onePage 0x400000 0x1000 ∧
      onePage.unmapPages 0x400000 0x1000 memory = .ok after ∧
      ¬ Released memory after 0x400000 0x1000 := by
  refine ⟨_, _, onePage_placed, emptyMemory_fresh onePage,
    .single ⟨.handlePageFault 0x400123, rfl⟩, ⟨by decide, by decide, by decide, by decide⟩, rfl, ?_⟩
  intro hreleased
  have habsent := (hreleased 0x400 ⟨by decide, by decide, by decide⟩).1
  cases habsent

end GeexOS.LazyRegion
