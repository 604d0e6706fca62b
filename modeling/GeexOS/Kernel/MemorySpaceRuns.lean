import GeexOS.Kernel.MemorySpace

/-!
# Runs of a memory space

Every call keeps what holds of the regions and their pages, and a page fault comes back
exactly if a region is there to take it.
-/

namespace GeexOS.MemorySpace

open GeexOS.Words
open GeexOS.Halting
open GeexOS.PhysicalAllocator
open GeexOS.PhysicalAllocator.BitfieldPhysicalMemoryAllocator
open GeexOS.Paging
open GeexOS.LazyRegion
open VirtualMemorySpace

variable {reserved : Set ℕ} {space space' : VirtualMemorySpace}
variable {memory memory' : PagedMemory} {region : MemoryRegion}
variable {r flags first page last start length faultingAddress : ℕ}

/-! ## Every call keeps the space sound -/

theorem mem_owned (hregion : space.regions r = some region) (hpage : region.Has page) :
    page ∈ space.owned := ⟨r, region, hregion, hpage⟩

theorem withRegion_eq_ok {body : MemoryRegion → PagedMemory → Outcome PagedMemory}
    (hcall : space.withRegion r body = .ok space') :
    ∃ region memory', space.regions r = some region ∧ body region space.memory = .ok memory' ∧
      space' = { space with memory := memory' } := by
  rw [withRegion] at hcall
  cases hregion : space.regions r with
  | none =>
      rw [hregion] at hcall
      cases hcall
  | some region =>
      rw [hregion] at hcall
      obtain ⟨memory', hbody, hrest⟩ := bind_eq_ok.mp hcall
      exact ⟨region, memory', rfl, hbody, (Except.ok.inj hrest).symm⟩

theorem Sound.withMemory (hspace : Sound reserved space)
    (hbacked : Backed reserved space.owned memory')
    (hcarries : ∀ r region page entry, space.regions r = some region → region.Has page →
      entryOf memory'.paging page = some entry → Carries region.flags entry) :
    Sound reserved { space with memory := memory' } :=
  { hspace with backed := hbacked, carries := hcarries }

/-- Pages of one region are edited, so the other regions keep theirs. -/
theorem Sound.carries_edits (hspace : Sound reserved space)
    (hregion : space.regions r = some region)
    (hhas : ∀ page, first ≤ page → page < last → region.Has page)
    (hedits : Edits flags first last space.memory memory')
    (hflags : ∀ page, region.Has page → ¬ (first ≤ page ∧ page < last) → flags = region.flags)
    {other : ℕ} {otherRegion : MemoryRegion} (hother : space.regions other = some otherRegion)
    (hpage : otherRegion.Has page) {entry : X86Page}
    (hentry : entryOf memory'.paging page = some entry) :
    Carries (if other = r then flags else otherRegion.flags) entry := by
  obtain ⟨hinside, houtside⟩ := hedits page hpage.2.2
  by_cases hrange : first ≤ page ∧ page < last
  · have hsame := hspace.disjoint other r otherRegion region page hother hregion hpage
      (hhas page hrange.1 hrange.2)
    rw [if_pos hsame]
    exact hinside hrange.1 hrange.2 entry hentry
  · rw [houtside hrange] at hentry
    have hcarries := hspace.carries other otherRegion page entry hother hpage hentry
    by_cases hsame : other = r
    · subst hsame
      rw [hregion, Option.some.injEq] at hother
      subst hother
      rw [if_pos rfl, hflags page hpage hrange]
      exact hcarries
    · rwa [if_neg hsame]

theorem Sound.mapFreshPages (hspace : Sound reserved space)
    (habsent : ∀ page, InRange start length page → frameOf space.memory page = none)
    (hcall : perform space (.mapFreshPages r start length) = .ok space') :
    Sound reserved space' := by
  obtain ⟨region, memory', hregion, hbody, rfl⟩ := withRegion_eq_ok hcall
  obtain ⟨hbacked, first, last, -, -, hhas, hedits⟩ := hspace.backed.mapPages
    (fun page hpage => mem_owned hregion hpage) habsent hbody
  refine hspace.withMemory hbacked fun other otherRegion page entry hother hpage hentry => ?_
  have hcarries := hspace.carries_edits hregion (fun page hlow hhigh => hhas page hlow (by omega))
    hedits (fun _ _ _ => rfl) hother hpage hentry
  split at hcarries
  · rename_i heq
    subst heq
    rw [hregion, Option.some.injEq] at hother
    exact hother ▸ hcarries
  · exact hcarries

theorem Sound.unmapPages (hspace : Sound reserved space)
    (hcall : perform space (.unmapPages r start length) = .ok space') :
    Sound reserved space' := by
  obtain ⟨region, memory', hregion, hbody, rfl⟩ := withRegion_eq_ok hcall
  obtain ⟨hbacked, first, last, -, -, hclears⟩ := hspace.backed.unmapPages
    (fun page hpage => mem_owned hregion hpage) hbody
  refine hspace.withMemory hbacked fun other otherRegion page entry hother hpage hentry => ?_
  rw [hclears page hpage.2.2] at hentry
  split at hentry
  · cases hentry
  · exact hspace.carries other otherRegion page entry hother hpage hentry

theorem Sound.exists_spans (hspace : Sound reserved space)
    (hregion : space.regions r = some region) :
    ∃ first last, Spans region.toVirtualMemoryRegion first last :=
  MemorySpace.exists_spans (hspace.start_aligned r region hregion)
    (hspace.size_aligned r region hregion) (hspace.end_lt r region hregion)

/-- A region with other flags has the pages it had. -/
theorem regions_withFlags (hregion : space.regions r = some region) {other : ℕ}
    {otherRegion : MemoryRegion}
    (hother : (space.setRegion r (some { region with flags := flags })).regions other =
      some otherRegion) :
    ∃ before, space.regions other = some before ∧
      otherRegion = { before with flags := if other = r then flags else before.flags } := by
  by_cases heq : other = r
  · subst heq
    rw [setRegion_self, Option.some.injEq] at hother
    exact ⟨region, hregion, by rw [if_pos rfl, hother]⟩
  · rw [setRegion_of_ne _ heq] at hother
    exact ⟨otherRegion, hother, by rw [if_neg heq]⟩

theorem owned_withFlags (hregion : space.regions r = some region) :
    (space.setRegion r (some { region with flags := flags })).owned = space.owned := by
  ext page
  constructor
  · rintro ⟨other, otherRegion, hother, hpage⟩
    obtain ⟨before, hbefore, rfl⟩ := regions_withFlags hregion hother
    exact ⟨other, before, hbefore, hpage⟩
  · rintro ⟨other, otherRegion, hother, hpage⟩
    by_cases heq : other = r
    · subst heq
      rw [hregion, Option.some.injEq] at hother
      subst hother
      exact ⟨other, _, setRegion_self .., hpage⟩
    · exact ⟨other, otherRegion, (setRegion_of_ne _ heq _).trans hother, hpage⟩

theorem Sound.setFlags (hspace : Sound reserved space)
    (hcall : space.setFlags r flags = .ok space') : Sound reserved space' := by
  rw [VirtualMemorySpace.setFlags] at hcall
  obtain ⟨flagged, memory', hflagged, hbody, rfl⟩ := withRegion_eq_ok hcall
  obtain ⟨region, hregion, rfl⟩ : ∃ region, space.regions r = some region ∧
      flagged = { region with flags := flags } := by
    rw [setRegion_self, Option.map_eq_some_iff] at hflagged
    obtain ⟨region, hregion, rfl⟩ := hflagged
    exact ⟨region, hregion, rfl⟩
  rw [hregion, Option.map_some]
  obtain ⟨first, last, hspans⟩ := hspace.exists_spans hregion
  have hflagged : Spans ({ region with flags := flags } : MemoryRegion).toVirtualMemoryRegion
      first last := ⟨hspans.1, hspans.2, hspans.3, hspans.4⟩
  obtain ⟨hbacked, hedits⟩ := hspace.backed.remapPages hflagged hbody
  refine ⟨(owned_withFlags hregion).symm ▸ hbacked, ?_, ?_, ?_, ?_, ?_, hspace.nodup, ?_⟩
  · intro other otherRegion hother
    obtain ⟨before, hbefore, rfl⟩ := regions_withFlags hregion hother
    exact hspace.start_aligned other before hbefore
  · intro other otherRegion hother
    obtain ⟨before, hbefore, rfl⟩ := regions_withFlags hregion hother
    exact hspace.size_aligned other before hbefore
  · intro other otherRegion hother
    obtain ⟨before, hbefore, rfl⟩ := regions_withFlags hregion hother
    exact hspace.end_lt other before hbefore
  · intro left right leftRegion rightRegion page hleft hright hfirst hsecond
    obtain ⟨leftBefore, hleftBefore, rfl⟩ := regions_withFlags hregion hleft
    obtain ⟨rightBefore, hrightBefore, rfl⟩ := regions_withFlags hregion hright
    exact hspace.disjoint left right leftBefore rightBefore page hleftBefore hrightBefore
      hfirst hsecond
  · intro other hmem
    by_cases heq : other = r
    · subst heq
      exact (setRegion_self ..).trans_ne (Option.some_ne_none _)
    · exact (setRegion_of_ne _ heq _).trans_ne (hspace.listed other hmem)
  · intro other otherRegion page entry hother hpage hentry
    obtain ⟨before, hbefore, rfl⟩ := regions_withFlags hregion hother
    exact hspace.carries_edits hregion (fun page hlow hhigh => hspans.has_iff.mpr ⟨hlow, hhigh⟩)
      hedits (fun page hhas hout => absurd (hspans.has_iff.mp hhas) hout) hbefore hpage hentry

theorem owned_setRegion_some (region : MemoryRegion) (hunused : space.regions r = none) :
    (space.setRegion r (some region)).owned = space.owned ∪ {page | region.Has page} := by
  ext page
  constructor
  · rintro ⟨other, otherRegion, hother, hpage⟩
    by_cases heq : other = r
    · subst heq
      rw [setRegion_self, Option.some.injEq] at hother
      subst hother
      exact Or.inr hpage
    · exact Or.inl ⟨other, otherRegion, by rwa [setRegion_of_ne _ heq] at hother,
        hpage⟩
  · rintro (⟨other, otherRegion, hother, hpage⟩ | hpage)
    · have hne : other ≠ r := by
        rintro rfl
        rw [hunused] at hother
        cases hother
      exact ⟨other, otherRegion, (setRegion_of_ne _ hne _).trans hother, hpage⟩
    · exact ⟨r, region, setRegion_self .., hpage⟩

/-- The regions after one more has been made. -/
theorem regions_construct {other : ℕ} {otherRegion : MemoryRegion}
    (hother : (space.setRegion r (some region)).regions other = some otherRegion) :
    (other = r ∧ otherRegion = region) ∨ (other ≠ r ∧ space.regions other = some otherRegion) := by
  by_cases heq : other = r
  · subst heq
    rw [setRegion_self, Option.some.injEq] at hother
    exact Or.inl ⟨rfl, hother.symm⟩
  · rw [setRegion_of_ne _ heq] at hother
    exact Or.inr ⟨heq, hother⟩

theorem Sound.construct (hspace : Sound reserved space) (hmay : MayConstruct space r region)
    (hcall : perform space (.construct r region) = .ok space') : Sound reserved space' := by
  obtain ⟨memory', hconstruct, hrest⟩ := bind_eq_ok.mp hcall
  obtain rfl := Except.ok.inj hrest
  obtain ⟨hstart, hsize, hpaging, hbacked⟩ :=
    hspace.backed.construct hmay.end_lt hmay.absent hconstruct
  have howned := owned_setRegion_some region hmay.unused
  refine ⟨howned.symm ▸ hbacked, ?_, ?_, ?_, ?_, ?_, hspace.nodup, ?_⟩
  · intro other otherRegion hother
    rcases regions_construct hother with ⟨-, rfl⟩ | ⟨-, hbefore⟩
    · exact hstart
    · exact hspace.start_aligned other otherRegion hbefore
  · intro other otherRegion hother
    rcases regions_construct hother with ⟨-, rfl⟩ | ⟨-, hbefore⟩
    · exact hsize
    · exact hspace.size_aligned other otherRegion hbefore
  · intro other otherRegion hother
    rcases regions_construct hother with ⟨-, rfl⟩ | ⟨-, hbefore⟩
    · exact hmay.end_lt
    · exact hspace.end_lt other otherRegion hbefore
  · intro left right leftRegion rightRegion page hleft hright hfirst hsecond
    rcases regions_construct hleft with ⟨hleftEq, rfl⟩ | ⟨-, hleftBefore⟩ <;>
      rcases regions_construct hright with ⟨hrightEq, rfl⟩ | ⟨-, hrightBefore⟩
    · rw [hleftEq, hrightEq]
    · exact absurd (mem_owned hrightBefore hsecond) (hmay.apart page hfirst)
    · exact absurd (mem_owned hleftBefore hfirst) (hmay.apart page hsecond)
    · exact hspace.disjoint left right leftRegion rightRegion page hleftBefore hrightBefore
        hfirst hsecond
  · intro other hmem
    by_cases heq : other = r
    · subst heq
      exact (setRegion_self ..).trans_ne (Option.some_ne_none _)
    · exact (setRegion_of_ne _ heq _).trans_ne (hspace.listed other hmem)
  · intro other otherRegion page entry hother hpage hentry
    change entryOf memory'.paging page = some entry at hentry
    rw [hpaging] at hentry
    rcases regions_construct hother with ⟨-, rfl⟩ | ⟨-, hbefore⟩
    · by_cases hclass : otherRegion.regionClass = .kernelProgram
      · exact hmay.mapped hclass page entry hpage hentry
      · have habsent := hmay.absent hclass page hpage
        rw [frameOf_eq_map, hentry] at habsent
        cases habsent
    · exact hspace.carries other otherRegion page entry hbefore hpage hentry

/-- The regions after one of them has been destroyed. -/
theorem regions_destroy {other : ℕ} {otherRegion : MemoryRegion}
    (hother : (space.setRegion r none).regions other = some otherRegion) :
    other ≠ r ∧ space.regions other = some otherRegion := by
  by_cases heq : other = r
  · subst heq
    rw [setRegion_self] at hother
    cases hother
  · rw [setRegion_of_ne _ heq] at hother
    exact ⟨heq, hother⟩

theorem Sound.destroy (hspace : Sound reserved space) (hunlisted : r ∉ space.memoryRegionList)
    (hcall : perform space (.destroy r) = .ok space') : Sound reserved space' := by
  obtain ⟨middle, hwith, hrest⟩ := bind_eq_ok.mp hcall
  obtain rfl := Except.ok.inj hrest
  obtain ⟨region, memory', hregion, hbody, rfl⟩ := withRegion_eq_ok hwith
  obtain ⟨hbacked, low, high, hlow, hhigh, hclears⟩ := hspace.backed.unmapPages
    (fun page hpage => mem_owned hregion hpage) hbody
  obtain ⟨first, last, hspans⟩ := hspace.exists_spans hregion
  have hfirst : low = first :=
    Nat.eq_of_mul_eq_mul_right (by decide) (hlow.symm.trans hspans.start_eq)
  have hlast : high = last :=
    Nat.eq_of_mul_eq_mul_right (by decide) (hhigh.symm.trans hspans.u32_end)
  rw [hfirst, hlast, Nat.max_eq_right hspans.first_le] at hclears
  have hkept : (setRegion { space with memory := memory' } r none).owned ⊆ space.owned := by
    rintro page ⟨other, otherRegion, hother, hpage⟩
    exact ⟨other, otherRegion, (regions_destroy hother).2, hpage⟩
  have hreleased : ∀ page ∈ space.owned,
      page ∉ (setRegion { space with memory := memory' } r none).owned →
      frameOf memory' page = none ∨ frameOf memory' page = some 0 := by
    rintro page ⟨other, otherRegion, hother, hpage⟩ hgone
    have hsame : other = r := by
      by_contra hne
      exact hgone ⟨other, otherRegion, (setRegion_of_ne _ hne _).trans hother, hpage⟩
    subst hsame
    rw [hregion, Option.some.injEq] at hother
    subst hother
    rw [frameOf_eq_map, hclears page hpage.2.2]
    by_cases hzero : frameOf space.memory page = some 0
    · rw [if_neg (fun hboth => hboth.2 hzero)]
      exact Or.inr hzero
    · rw [if_pos ⟨hspans.has_iff.mp hpage, hzero⟩]
      exact Or.inl rfl
  refine ⟨hbacked.subset hkept hreleased, ?_, ?_, ?_, ?_, ?_, hspace.nodup, ?_⟩
  · exact fun other otherRegion hother =>
      hspace.start_aligned other otherRegion (regions_destroy hother).2
  · exact fun other otherRegion hother =>
      hspace.size_aligned other otherRegion (regions_destroy hother).2
  · exact fun other otherRegion hother =>
      hspace.end_lt other otherRegion (regions_destroy hother).2
  · exact fun left right leftRegion rightRegion page hleft hright =>
      hspace.disjoint left right leftRegion rightRegion page (regions_destroy hleft).2
        (regions_destroy hright).2
  · intro other hmem
    have hne : other ≠ r := fun heq => hunlisted (heq ▸ hmem)
    exact (setRegion_of_ne _ hne _).trans_ne (hspace.listed other hmem)
  · intro other otherRegion page entry hother hpage hentry
    change entryOf memory'.paging page = some entry at hentry
    rw [hclears page hpage.2.2] at hentry
    split at hentry
    · cases hentry
    · exact hspace.carries other otherRegion page entry (regions_destroy hother).2 hpage hentry

/-! ## Page faults -/

/-- The region around an address, in pages. -/
theorem Spans.encloses_iff {region : VirtualMemoryRegion} (hspans : Spans region first last) :
    (faultingAddress ≥ region.startAddress ∧
        faultingAddress < u32 (region.startAddress + region.size)) ↔
      region.Has (pageOf faultingAddress) := by
  rw [hspans.has_iff, hspans.u32_end, hspans.start_eq, pageOf, ge_iff_le,
    Nat.le_div_iff_mul_le (by decide), Nat.div_lt_iff_lt_mul (by decide)]
  rfl

/-- The search for the region of an address finds the one listed region that has its page. -/
theorem Sound.findRegionEnclosingAddress_eq_some (hspace : Sound reserved space)
    (faultingAddress : ℕ) (region : MemoryRegion) :
    space.findRegionEnclosingAddress faultingAddress = some region ↔
      ∃ r ∈ space.memoryRegionList, space.regions r = some region ∧
        region.Has (pageOf faultingAddress) := by
  have hencloses : ∀ r region, space.regions r = some region →
      ((faultingAddress ≥ region.startAddress ∧
        faultingAddress < u32 (region.startAddress + region.size)) ↔
      region.Has (pageOf faultingAddress)) := fun r region hregion => by
    obtain ⟨first, last, hspans⟩ := hspace.exists_spans hregion
    exact hspans.encloses_iff
  have hsound : ∀ found, space.findRegionEnclosingAddress faultingAddress = some found →
      ∃ r ∈ space.memoryRegionList, space.regions r = some found ∧
        found.Has (pageOf faultingAddress) := by
    intro found hfound
    obtain ⟨r, hmem, hr⟩ := List.exists_of_findSome?_eq_some hfound
    obtain ⟨hregion, hinside⟩ := Option.filter_eq_some_iff.mp hr
    exact ⟨r, hmem, hregion, (hencloses r found hregion).mp (of_decide_eq_true hinside)⟩
  refine ⟨hsound region, ?_⟩
  rintro ⟨r, hmem, hregion, hhas⟩
  cases hfind : space.findRegionEnclosingAddress faultingAddress with
  | none =>
      have hnone := List.findSome?_eq_none_iff.mp hfind r hmem
      rw [hregion, Option.filter_some,
        if_pos (decide_eq_true ((hencloses r region hregion).mpr hhas))] at hnone
      cases hnone
  | some found =>
      -- no page belongs to two regions
      obtain ⟨other, -, hother, hpage⟩ := hsound found hfind
      have hsame := hspace.disjoint other r found region _ hother hregion hpage hhas
      rw [hsame, hregion] at hother
      exact hother.symm

theorem pageLoop_one {body : ℕ → PagedMemory → Outcome PagedMemory} {fuel : ℕ}
    (hpage : page + 1 < 2 ^ 20) :
    VirtualMemoryRegion.pageLoop body ((page + 1) * pageSize) (fuel + 2) (page * pageSize) memory =
      body (page * pageSize) memory := by
  rw [VirtualMemoryRegion.pageLoop, if_pos (mul_pageSize_lt_iff.mpr (Nat.lt_succ_self page)),
    u32_next hpage (Nat.lt_succ_self page)]
  cases body (page * pageSize) memory with
  | error halt => rfl
  | ok after =>
      rw [ok_bind, VirtualMemoryRegion.pageLoop, if_neg (lt_irrefl _)]

/-- A fault in a lazy region maps the page of the address. -/
theorem Spans.handlePageFault_eq {region : VirtualMemoryRegion} (hspans : Spans region first last)
    (haddress : faultingAddress < 2 ^ 32) (hhas : region.Has (pageOf faultingAddress)) :
    region.handlePageFault faultingAddress memory =
      if memory.paging.isPresent faultingAddress then .error notResolved
      else region.mapFreshPage (pageOf faultingAddress * pageSize) memory := by
  have hinside := hspans.has_iff.mp hhas
  have hlast := hspans.last_lt
  have hmask : (0xFFFFF000 : ℕ) = 2 ^ 32 - 2 ^ 12 := by decide
  have hstart : faultingAddress &&& 0xFFFFF000 = pageOf faultingAddress * pageSize := by
    rw [hmask, land_mask haddress (by norm_num)]
    rfl
  have hlimit : u32 (pageOf faultingAddress * pageSize + pageSize) =
      (pageOf faultingAddress + 1) * pageSize := u32_next hlast hinside.2
  have haligned : ¬ (pageOf faultingAddress * pageSize % pageSize ≠ 0 ∨
      pageSize % pageSize ≠ 0) := by
    rw [Nat.mul_mod_left, Nat.mod_self]
    decide
  have hbounds : ¬ (pageOf faultingAddress * pageSize < region.startAddress ∨
      (pageOf faultingAddress + 1) * pageSize > u32 (region.startAddress + region.size)) := by
    rw [hspans.u32_end, hspans.start_eq, not_or, Nat.not_lt, Nat.not_lt]
    exact ⟨Nat.mul_le_mul_right _ hinside.1, Nat.mul_le_mul_right _ hinside.2⟩
  rw [VirtualMemoryRegion.handlePageFault, hstart, VirtualMemoryRegion.mapFreshPages,
    VirtualMemoryRegion.forPages, if_neg haligned, hlimit, if_neg hbounds]
  split
  · rfl
  · have hfuel : 2 ^ 20 + 1 = (2 ^ 20 - 1) + 2 := by norm_num
    rw [hfuel]
    exact pageLoop_one (by omega)

/-- A frame that the search of the allocator can find. -/
def FrameLeft (allocator : BitfieldPhysicalMemoryAllocator) : Prop :=
  ∃ frame < allocator.frames.searched, ¬ allocator.Used frame

theorem exists_allocateFrame_iff {allocator : BitfieldPhysicalMemoryAllocator}
    (hallocator : allocator.WellFormed) (hsmall : allocator.nFrames < 2 ^ 20) :
    (∃ result, allocator.allocateFrame true = .ok result) ↔ FrameLeft allocator := by
  rcases allocator.frames.getFirstClearedIndex_cases with ⟨hlt, hclear, -⟩ | ⟨hnone, hset⟩
  · have hbound := hlt.trans_le allocator.frames.searched_le
    have hcount : allocator.frames.numElements = allocator.nFrames := hallocator
    have hfound : allocator.frames.getFirstClearedIndex ≠ 0xFFFFFFFF := by omega
    obtain ⟨frames, hframes, -⟩ := DataStructures.Bitfield.setBit_of_lt hbound
    refine iff_of_true ⟨(u32 (allocator.frames.getFirstClearedIndex * pageSize),
      { allocator with frames := frames }), ?_⟩ ⟨_, hlt, fun hused => ?_⟩
    · simp only [allocateFrame, Bool.not_true, Bool.false_eq_true, if_false, if_neg hfound,
        hframes, ok_bind]
    · rw [Used, hclear] at hused
      cases hused
  · refine iff_of_false ?_ ?_
    · rintro ⟨result, hresult⟩
      rw [allocateFrame_outOfFrames.mpr hnone] at hresult
      cases hresult
    · rintro ⟨frame, hlt, hclear⟩
      exact hclear (hset frame hlt)

theorem Backed.exists_mapFreshPage_iff {owned : Set ℕ} {region : VirtualMemoryRegion}
    (hmemory : Backed reserved owned memory) (hpage : page < 2 ^ 20) :
    (∃ memory', region.mapFreshPage (page * pageSize) memory = .ok memory') ↔
      FrameLeft memory.allocator := by
  rw [← exists_allocateFrame_iff hmemory.allocator hmemory.nFrames_lt]
  constructor
  · rintro ⟨memory', hcall⟩
    obtain ⟨result, hresult, -⟩ := bind_eq_ok.mp hcall
    exact ⟨result, hresult⟩
  · rintro ⟨⟨address, allocator⟩, hresult⟩
    obtain ⟨paging, -, hmap, -⟩ := hmemory.paging.mapAddress (page_lt hpage) address
      (region.flags &&& allocFlagWritable != 0) (region.flags &&& allocFlagUsermode != 0)
    exact ⟨⟨paging, allocator⟩, by
      simp only [VirtualMemoryRegion.mapFreshPage, hresult, hmap, ok_bind]⟩

/-- A region that can take a fault: swapped regions take every fault, lazy regions one on a
page that is not present while frames are left. -/
def Takes (region : MemoryRegion) (faultingAddress : ℕ) (memory : PagedMemory) : Prop :=
  region.regionClass = .swapped ∨
    region.regionClass = .lazy ∧ memory.paging.isPresent faultingAddress = false ∧
      FrameLeft memory.allocator

/-- What a region has done about a fault: nothing, or the page has got a frame. -/
def Taken (region : MemoryRegion) (faultingAddress : ℕ) (before after : PagedMemory) : Prop :=
  (region.regionClass = .swapped ∧ after = before) ∨
    (region.regionClass = .lazy ∧ before.paging.isPresent faultingAddress = false ∧
      ∃ frame, MapsFresh region.flags (pageOf faultingAddress) frame before after)

theorem Sound.takePageFault (hspace : Sound reserved space)
    (haddress : faultingAddress < 2 ^ 32) (hregion : space.regions r = some region)
    (hhas : region.Has (pageOf faultingAddress)) :
    ((∃ memory', region.takePageFault faultingAddress space.memory = .ok memory') ↔
        Takes region faultingAddress space.memory) ∧
      ∀ memory', region.takePageFault faultingAddress space.memory = .ok memory' →
        Taken region faultingAddress space.memory memory' := by
  obtain ⟨first, last, hspans⟩ := hspace.exists_spans hregion
  have hpage := pageOf_lt haddress
  rw [MemoryRegion.takePageFault, Takes]
  cases hclass : region.regionClass with
  | kernelProgram =>
      refine ⟨iff_of_false ?_ (by simp), fun memory' hcall => by cases hcall⟩
      rintro ⟨memory', hcall⟩
      cases hcall
  | swapped =>
      refine ⟨iff_of_true ⟨space.memory, rfl⟩ (Or.inl rfl), fun memory' hcall => ?_⟩
      exact Or.inl ⟨hclass, (Except.ok.inj hcall).symm⟩
  | lazy =>
      simp only [reduceCtorEq, false_or, true_and]
      rw [hspans.handlePageFault_eq haddress hhas]
      cases hpresent : space.memory.paging.isPresent faultingAddress with
      | true =>
          refine ⟨iff_of_false ?_ (by simp), fun memory' hcall => by cases hcall⟩
          rintro ⟨memory', hcall⟩
          cases hcall
      | false =>
          rw [if_neg (by decide)]
          refine ⟨(hspace.backed.exists_mapFreshPage_iff hpage).trans (by simp),
            fun memory' hcall => Or.inr ⟨hclass, hpresent, ?_⟩⟩
          exact hspace.backed.mapsFresh hpage hcall

/-- A fault comes back exactly if a listed region has the page and can take it. -/
theorem Sound.resolve_iff (hspace : Sound reserved space)
    (haddress : faultingAddress < 2 ^ 32) :
    (∃ space', resolve (some space) faultingAddress = .ok space') ↔
      ∃ r ∈ space.memoryRegionList, ∃ region, space.regions r = some region ∧
        region.Has (pageOf faultingAddress) ∧ Takes region faultingAddress space.memory := by
  have hfinds := hspace.findRegionEnclosingAddress_eq_some faultingAddress
  rw [resolve, handlePageFault]
  cases hfind : space.findRegionEnclosingAddress faultingAddress with
  | none =>
      refine iff_of_false ?_ ?_
      · rintro ⟨space', hcall⟩
        cases hcall
      · rintro ⟨r, hmem, region, hregion, hhas, -⟩
        have hfound := (hfinds region).mpr ⟨r, hmem, hregion, hhas⟩
        rw [hfind] at hfound
        cases hfound
  | some region =>
      obtain ⟨r, hmem, hregion, hhas⟩ := (hfinds region).mp hfind
      have htakes := (hspace.takePageFault haddress hregion hhas).1
      constructor
      · rintro ⟨space', hcall⟩
        obtain ⟨result, hresult, -⟩ := bind_eq_ok.mp hcall
        obtain ⟨memory', htaken, -⟩ := bind_eq_ok.mp hresult
        exact ⟨r, hmem, region, hregion, hhas, htakes.mp ⟨memory', htaken⟩⟩
      · rintro ⟨other, hother, found, hfound, hpage, htake⟩
        have hsame := (hfinds found).mpr ⟨other, hother, hfound, hpage⟩
        rw [hfind, Option.some.injEq] at hsame
        obtain ⟨memory', htaken⟩ := htakes.mpr (hsame ▸ htake)
        exact ⟨{ space with memory := memory' }, by
          simp only [htaken, ok_bind, Bool.not_true, Bool.false_eq_true, if_false]⟩

/-- What a fault that comes back has changed. -/
theorem Sound.resolve_eq_ok (hspace : Sound reserved space)
    (haddress : faultingAddress < 2 ^ 32)
    (hcall : resolve (some space) faultingAddress = .ok space') :
    ∃ r ∈ space.memoryRegionList, ∃ region memory', space.regions r = some region ∧
      region.Has (pageOf faultingAddress) ∧
      Taken region faultingAddress space.memory memory' ∧
      space' = { space with memory := memory' } := by
  obtain ⟨⟨resolved, after⟩, hhandle, hrest⟩ := bind_eq_ok.mp hcall
  rw [handlePageFault] at hhandle
  cases hfind : space.findRegionEnclosingAddress faultingAddress with
  | none =>
      rw [hfind, Except.ok.injEq, Prod.mk.injEq] at hhandle
      obtain ⟨rfl, -⟩ := hhandle
      cases hrest
  | some region =>
      rw [hfind] at hhandle
      obtain ⟨memory', htaken, hafter⟩ := bind_eq_ok.mp hhandle
      rw [Except.ok.injEq, Prod.mk.injEq] at hafter
      obtain ⟨rfl, rfl⟩ := hafter
      obtain ⟨r, hmem, hregion, hhas⟩ :=
        (hspace.findRegionEnclosingAddress_eq_some faultingAddress region).mp hfind
      exact ⟨r, hmem, region, memory', hregion, hhas,
        (hspace.takePageFault haddress hregion hhas).2 memory' htaken, (Except.ok.inj hrest).symm⟩

theorem Sound.pageFault (hspace : Sound reserved space) (haddress : faultingAddress < 2 ^ 32)
    (hcall : resolve (some space) faultingAddress = .ok space') : Sound reserved space' := by
  obtain ⟨r, -, region, memory', hregion, hhas, htaken, rfl⟩ :=
    hspace.resolve_eq_ok haddress hcall
  rcases htaken with ⟨-, rfl⟩ | ⟨-, habsent, frame, hmaps⟩
  · exact hspace
  · rw [hspace.backed.paging.isPresent_eq haddress, Option.isSome_eq_false_iff,
      Option.isNone_iff_eq_none] at habsent
    have hnone : frameOf space.memory (pageOf faultingAddress) = none := by
      rw [frameOf_eq_map, habsent, Option.map_none]
    refine hspace.withMemory
      (hspace.backed.mapFreshPage (mem_owned hregion hhas) hnone hmaps) ?_
    obtain ⟨entry, -, hcarries, hentries⟩ := hmaps.entry
    intro other otherRegion page written hother hpage hwritten
    rw [hentries page hpage.2.2] at hwritten
    split at hwritten
    · rename_i heq
      subst heq
      have hsame := hspace.disjoint other r otherRegion region _ hother hregion hpage hhas
      rw [hsame, hregion, Option.some.injEq] at hother
      rw [Option.some.injEq] at hwritten
      exact hother ▸ hwritten ▸ hcarries
    · exact hspace.carries other otherRegion page written hother hpage hwritten

/-! ## Runs -/

theorem Sound.addRegion (hspace : Sound reserved space) (hlive : space.regions r ≠ none)
    (hunlisted : r ∉ space.memoryRegionList) : Sound reserved (space.addRegion r) :=
  { hspace with
    listed := fun other hmem => by
      rcases List.mem_append.mp hmem with hbefore | hnew
      · exact hspace.listed other hbefore
      · rwa [List.mem_singleton.mp hnew]
    nodup := List.nodup_append.mpr ⟨hspace.nodup, List.pairwise_singleton _ r,
      fun left hleft right hright heq => hunlisted (List.mem_singleton.mp hright ▸ heq ▸ hleft)⟩ }

theorem Sound.removeRegion (hspace : Sound reserved space) :
    Sound reserved (space.removeRegion r) :=
  { hspace with
    listed := fun other hmem => hspace.listed other (List.mem_of_mem_erase hmem)
    nodup := hspace.nodup.erase r }

theorem SpaceStep.sound (hstep : SpaceStep space space') (hspace : Sound reserved space) :
    Sound reserved space' := by
  obtain ⟨call, hpermitted, hcall⟩ := hstep
  cases call with
  | construct r region => exact hspace.construct hpermitted hcall
  | destroy r => exact hspace.destroy hpermitted hcall
  | addRegion r =>
      obtain rfl := Except.ok.inj hcall
      exact hspace.addRegion hpermitted.1 hpermitted.2
  | removeRegion r =>
      obtain rfl := Except.ok.inj hcall
      exact hspace.removeRegion
  | setFlags r f => exact hspace.setFlags hcall
  | mapFreshPages r start length => exact hspace.mapFreshPages hpermitted hcall
  | unmapPages r start length => exact hspace.unmapPages hcall
  | pageFault faultingAddress => exact hspace.pageFault hpermitted hcall

/-- A space without regions.  Any pages may be mapped and any frames in use. -/
structure Booted (space : VirtualMemorySpace) : Prop where
  regions_eq : space.regions = fun _ => none
  list_eq : space.memoryRegionList = []
  paging : Paging.WellFormed space.memory.paging
  allocator : ∃ memorySize taken,
    Relation.ReflTransGen FrameCall ⟨new memorySize, ∅⟩ ⟨space.memory.allocator, taken⟩

theorem Booted.sound (hbooted : Booted space) :
    Sound {frame | space.memory.allocator.Used frame} space := by
  obtain ⟨memorySize, taken, hrun⟩ := hbooted.allocator
  have hrepresents := FrameCall.represents_run hrun (represents_new memorySize)
  have hnone : ∀ r region, space.regions r ≠ some region := by
    rw [hbooted.regions_eq]
    exact fun _ _ => Option.some_ne_none _ |>.symm
  have hunowned : ∀ page, page ∉ space.owned := fun page ⟨r, region, hregion, _⟩ =>
    hnone r region hregion
  exact {
    backed := {
      paging := hbooted.paging
      allocator := hrepresents.wellFormed
      nFrames_lt := hrepresents.nFrames_lt
      owned_lt := fun page hpage => absurd hpage (hunowned page)
      reserved_used := fun _ hframe => hframe
      used := fun page hpage => absurd hpage (hunowned page)
      distinct := fun left hleft => absurd hleft (hunowned left)
      accounted := fun _ hused => Or.inl hused }
    start_aligned := fun r region hregion => absurd hregion (hnone r region)
    size_aligned := fun r region hregion => absurd hregion (hnone r region)
    end_lt := fun r region hregion => absurd hregion (hnone r region)
    disjoint := fun left _ leftRegion _ _ hleft => absurd hleft (hnone left leftRegion)
    listed := fun r hmem => by
      rw [hbooted.list_eq] at hmem
      cases hmem
    nodup := hbooted.list_eq ▸ List.nodup_nil
    carries := fun r region _ _ hregion => absurd hregion (hnone r region) }

theorem Booted.sound_run (hbooted : Booted space)
    (hrun : Relation.ReflTransGen SpaceStep space space') :
    Sound {frame | space.memory.allocator.Used frame} space' := by
  induction hrun with
  | refl => exact hbooted.sound
  | tail _ hstep ih => exact hstep.sound ih

/-- In every run the pages of the regions have frames of their own and carry the flags of
their regions.  When all regions are gone, all frames but frame 0 are free again that were
free at the start. -/
theorem sound_of_run (hbooted : Booted space)
    (hrun : Relation.ReflTransGen SpaceStep space space') :
    Sound {frame | space.memory.allocator.Used frame} space' ∧
      ((∀ r, space'.regions r = none) → ∀ frame ≠ 0,
        (space'.memory.allocator.Used frame ↔ space.memory.allocator.Used frame)) := by
  have hsound := hbooted.sound_run hrun
  refine ⟨hsound, fun hgone frame hnonzero => ⟨fun hused => ?_, fun hused => ?_⟩⟩
  · rcases hsound.backed.accounted frame hused with hreserved | hzero | ⟨page, hpage, -⟩
    · exact hreserved
    · exact absurd hzero hnonzero
    · obtain ⟨r, region, hregion, -⟩ := hpage
      rw [hgone r] at hregion
      cases hregion
  · exact hsound.backed.reserved_used frame hused

/-- Nothing is mapped, and no region has been made. -/
def bootSpace : VirtualMemorySpace := ⟨fun _ => none, [], emptyMemory⟩

theorem bootSpace_booted : Booted bootSpace where
  regions_eq := rfl
  list_eq := rfl
  paging := wellFormed_newDirectory _ (fun call => Nat.succ_ne_zero call) Nat.succ_injective
  allocator := ⟨128, ∅, .refl⟩

/-- A lazy region of one page. -/
def lazyPage : MemoryRegion := ⟨onePage, .lazy⟩

/-- The lazy region is made, listed, and touched. -/
theorem run_lazyPage : ∃ space, Relation.ReflTransGen SpaceStep bootSpace space ∧
    space.regions 0x1000 = some lazyPage ∧ space.memoryRegionList = [0x1000] ∧
    space.memory.paging.isPresent 0x400123 = true := by
  have hmay : MayConstruct bootSpace 0x1000 lazyPage := {
    unused := rfl
    end_lt := by decide
    apart := by
      rintro page - ⟨r, region, hregion, -⟩
      cases hregion
    mapped := fun hclass => by cases hclass
    absent := fun _ _ _ => rfl }
  refine ⟨_, .tail (.tail (.single ⟨.construct 0x1000 lazyPage, hmay, rfl⟩)
    ⟨.addRegion 0x1000, ⟨?_, List.not_mem_nil⟩, rfl⟩)
    ⟨.pageFault 0x400123, by show 0x400123 < 2 ^ 32; decide, rfl⟩, rfl, rfl, rfl⟩
  exact (setRegion_self ..).trans_ne (Option.some_ne_none _)

theorem sound_of_run_lazyPage : ∃ space, space.memory.paging.isPresent 0x400123 = true ∧
    Sound {frame | bootSpace.memory.allocator.Used frame} space := by
  obtain ⟨space, hrun, -, -, hpresent⟩ := run_lazyPage
  exact ⟨space, hpresent, (sound_of_run bootSpace_booted hrun).1⟩

end GeexOS.MemorySpace
