import GeexOS.Kernel.IOMemoryRuns

/-!
# From physical addresses back to I/O memory

A translation goes to the first region whose physical range holds the address.  The end
of a range is a 32-bit sum, and a range that ends with the address space holds nothing.
-/

namespace GeexOS.IOMemory

open GeexOS.Words
open GeexOS.Halting
open GeexOS.PhysicalAllocator
open GeexOS.PhysicalAllocator.BitfieldPhysicalMemoryAllocator
open GeexOS.Paging
open GeexOS.LazyRegion
open IOMemoryManager

namespace IOMemoryManager

def findRegionEnclosingPhysicalAddress (manager : IOMemoryManager) (physicalAddress : ℕ) :
    Option IOMemoryRegion :=
  manager.regionList.find? fun curRegion =>
    physicalAddress ≥ curRegion.startAddressPhysical &&
      physicalAddress < u32 (curRegion.startAddressPhysical + curRegion.size)

/-- The manager is the one of the kernel, in which the region is looked up. -/
def translatePhysicalAddress (manager : IOMemoryManager) (physicalAddress : ℕ) : ℕ :=
  match manager.findRegionEnclosingPhysicalAddress physicalAddress with
  | none => 0
  | some iomemregion =>
      let offsetInRegion :=
        sub32 (physicalAddress &&& 0xFFFFF000) iomemregion.startAddressPhysical
      let offset := sub32 iomemregion.startAddress (physicalAddress &&& 0xFFFFF000)
      u32 (u32 (physicalAddress + offset) + offsetInRegion)

end IOMemoryManager

variable {manager after : IOMemoryManager} {memory memory' : PagedMemory}
variable {request : MapRequest} {region : IOMemoryRegion} {fuel p : ℕ} {state state' : IOState}

/-- The physical address lies in the range of the region. -/
def IOMemoryRegion.EnclosesPhysical (region : IOMemoryRegion) (p : ℕ) : Prop :=
  region.startAddressPhysical ≤ p ∧ p < region.startAddressPhysical + region.size

/-- The translation is mapped to the address, in a region that encloses it. -/
structure Translates (state : IOState) (p : ℕ) : Prop where
  ne_zero : state.manager.translatePhysicalAddress p ≠ 0
  inside : ∃ region ∈ state.manager.regionList, region.EnclosesPhysical p ∧
    region.startAddress ≤ state.manager.translatePhysicalAddress p ∧
    state.manager.translatePhysicalAddress p < region.startAddress + region.size
  present : state.memory.paging.isPresent (state.manager.translatePhysicalAddress p) = true
  maps : state.memory.paging.getPhysicalAddress (state.manager.translatePhysicalAddress p) = p

/-- The first region that encloses the address and ends in front of 4 GiB of physical
memory. -/
def FirstBelowTop (manager : IOMemoryManager) (p : ℕ) (region : IOMemoryRegion) : Prop :=
  region.EnclosesPhysical p ∧ region.startAddressPhysical + region.size < 2 ^ 32 ∧
    ∃ front back, manager.regionList = front ++ region :: back ∧
      ∀ other ∈ front, other.EnclosesPhysical p →
        other.startAddressPhysical + other.size = 2 ^ 32

/-- A successful call, or anything else that leaves the mapped regions as they are. -/
inductive MapStep : IOState → IOState → Prop
  | call {state : IOState} {request : MapRequest} {fuel : ℕ} {region : IOMemoryRegion}
      {manager : IOMemoryManager} {memory : PagedMemory}
      (hphysical : request.physicalAddress < 2 ^ 32)
      (hrange : request.physicalAddress + request.size ≤ 2 ^ 32)
      (hcall : state.manager.mapPhysical fuel request state.memory =
        .ok (some region, manager, memory)) :
      MapStep state ⟨manager, memory⟩
  | other {state : IOState} {memory : PagedMemory}
      (hpaging : Paging.WellFormed memory.paging)
      (hsame : ∀ page < 2 ^ 20, ∀ entry, entryOf state.memory.paging page = some entry →
        entryOf memory.paging page = some entry) :
      MapStep state ⟨state.manager, memory⟩

/-! ## Mapping -/

/-- One iteration maps a page that was not mapped. -/
theorem mapLoop_succ_eq_ok {limit i physicalAddress : ℕ}
    (hpaging : Paging.WellFormed memory.paging) (hinside : i < limit) (hvirt : i < 2 ^ 32)
    (hloop : mapLoop limit (fuel + 1) i physicalAddress memory = .ok memory') :
    ∃ paging' entry, entryOf memory.paging (pageOf i) = none ∧ Paging.WellFormed paging' ∧
      entry.frameAddress = physicalAddress &&& 0xFFFFF000 ∧
      (∀ page < 2 ^ 20, entryOf paging' page =
        if page = pageOf i then some entry else entryOf memory.paging page) ∧
      mapLoop limit fuel (u32 (i + pageSize)) (u32 (physicalAddress + pageSize))
        { memory with paging := paging' } = .ok memory' := by
  rw [mapLoop, if_pos hinside] at hloop
  obtain ⟨isFree, hfree, hloop⟩ := bind_eq_ok.mp hloop
  cases isFree with
  | true => cases hloop
  | false =>
      rw [if_neg Bool.false_ne_true] at hloop
      split at hloop
      · cases hloop
      rename_i habsent
      rw [hpaging.isPresent_eq hvirt, Bool.not_eq_true, Option.isSome_eq_false_iff,
        Option.isNone_iff_eq_none] at habsent
      obtain ⟨paging', entry, hmap, hpaging', hframe, -, -, hentries⟩ :=
        hpaging.mapAddress hvirt physicalAddress true false
      rw [hmap, ok_bind] at hloop
      exact ⟨paging', entry, habsent, hpaging', hframe, hentries, hloop⟩

/-- The pages from `i` to the limit are mapped one after the other, and nothing that was
mapped is mapped again. -/
theorem mapLoop_eq_ok {limit i physicalAddress : ℕ} (hpaging : Paging.WellFormed memory.paging)
    (hi : pageSize ∣ i) (hlimit : pageSize ∣ limit) (hlt : limit < 2 ^ 32)
    (hphysical : physicalAddress < 2 ^ 32)
    (hloop : mapLoop limit fuel i physicalAddress memory = .ok memory') :
    Paging.WellFormed memory'.paging ∧
      (∀ page < 2 ^ 20, ∀ entry, entryOf memory.paging page = some entry →
        entryOf memory'.paging page = some entry) ∧
      ∀ k, i + k * pageSize < limit → ∃ entry,
        entryOf memory'.paging (pageOf i + k) = some entry ∧
          entry.frameAddress = u32 (physicalAddress + k * pageSize) &&& 0xFFFFF000 := by
  induction fuel generalizing i physicalAddress memory with
  | zero => cases hloop
  | succ fuel ih =>
      by_cases hinside : i < limit
      · have hvirt : i < 2 ^ 32 := hinside.trans hlt
        have hpage := pageOf_lt hvirt
        obtain ⟨paging', entry, habsent, hpaging', hframe, hentries, hrest⟩ :=
          mapLoop_succ_eq_ok hpaging hinside hvirt hloop
        have hnext : u32 (i + pageSize) = i + pageSize := by
          refine u32_of_lt ?_
          simp only [pageSize] at *
          omega
        rw [hnext] at hrest
        obtain ⟨hafter, hkeeps, hmapped⟩ := ih hpaging' ((Nat.dvd_add_self_right).mpr hi)
          (u32_lt _) hrest
        refine ⟨hafter, fun page hlt' old hold => hkeeps page hlt' old ?_, fun k hk => ?_⟩
        · rw [hentries page hlt', if_neg, hold]
          rintro rfl
          rw [habsent] at hold
          cases hold
        cases k with
        | zero =>
            refine ⟨entry, hkeeps _ hpage entry ?_, ?_⟩
            · rw [hentries _ hpage, if_pos rfl]
            · rw [hframe, Nat.zero_mul, Nat.add_zero, u32_of_lt hphysical]
        | succ k =>
            rw [Nat.add_mul, Nat.one_mul] at hk
            obtain ⟨other, hother, hframe'⟩ := hmapped k (by omega)
            have hplace : pageOf i + (k + 1) = pageOf (i + pageSize) + k := by
              simp only [pageOf, pageSize]
              omega
            have hframe'' : u32 (physicalAddress + (k + 1) * pageSize) =
                u32 (u32 (physicalAddress + pageSize) + k * pageSize) := by
              simp only [u32, pageSize]
              omega
            rw [hplace, hframe'']
            exact ⟨other, hother, hframe'⟩
      · rw [mapLoop, if_neg hinside] at hloop
        obtain rfl := Except.ok.inj hloop
        exact ⟨hpaging, fun _ _ _ hentry => hentry, fun k hk => absurd hk (by omega)⟩

/-- What a successful call has done. -/
theorem mapPhysical_eq_some (hcall : manager.mapPhysical fuel request memory =
    .ok (some region, after, memory')) :
    request.physicalAddress % pageSize = 0 ∧ request.size % pageSize = 0 ∧
      manager.scanLoop request.size fuel manager.iomemStart 0 =
        .ok (some region.startAddress) ∧
      region.startAddressPhysical = request.physicalAddress ∧ region.size = request.size ∧
      after = { manager with regionList := manager.regionList ++ [region] } ∧
      mapLoop (u32 (region.startAddress + region.size)) (2 ^ 20 + 1) region.startAddress
        request.physicalAddress memory = .ok memory' := by
  rw [mapPhysical] at hcall
  split at hcall
  · cases hcall
  rename_i hphysical
  split at hcall
  · cases hcall
  rename_i hsize
  split at hcall
  · cases hcall
  · obtain ⟨place, hscan, hcall⟩ := bind_eq_ok.mp hcall
    cases place with
    | none => cases hcall
    | some address =>
        obtain ⟨⟨region', manager', memory₁⟩, hallocate, hcall⟩ := bind_eq_ok.mp hcall
        obtain ⟨memory₂, hloop, hallocate⟩ := bind_eq_ok.mp hallocate
        obtain ⟨rfl, hrest⟩ := Prod.mk.inj (Except.ok.inj hallocate)
        obtain ⟨rfl, rfl⟩ := Prod.mk.inj hrest
        obtain ⟨hregion, hrest⟩ := Prod.mk.inj (Except.ok.inj hcall)
        obtain ⟨rfl, rfl⟩ := Prod.mk.inj hrest
        obtain rfl := Option.some.inj hregion
        exact ⟨not_not.mp hphysical, not_not.mp hsize, hscan, rfl, rfl, rfl, hloop⟩

/-- Regions whose range ends inside of the address space have all of their pages mapped. -/
structure Backed (state : IOState) : Prop where
  start_aligned : pageSize ∣ state.manager.iomemStart
  paging : Paging.WellFormed state.memory.paging
  aligned : ∀ region ∈ state.manager.regionList,
    pageSize ∣ region.startAddress ∧ pageSize ∣ region.startAddressPhysical
  physical_le : ∀ region ∈ state.manager.regionList,
    region.startAddressPhysical + region.size ≤ 2 ^ 32
  mapped : ∀ region ∈ state.manager.regionList, region.startAddress + region.size < 2 ^ 32 →
    ∀ k, k * pageSize < region.size → ∃ entry,
      entryOf state.memory.paging (pageOf region.startAddress + k) = some entry ∧
        entry.frameAddress = region.startAddressPhysical + k * pageSize

theorem Backed.initial (hstart : pageSize ∣ state.manager.iomemStart)
    (hempty : state.manager.regionList = []) (hpaging : Paging.WellFormed state.memory.paging) :
    Backed state :=
  ⟨hstart, hpaging, by simp [hempty], by simp [hempty], by simp [hempty]⟩

theorem pageOf_add_lt {address size k : ℕ} (hend : address + size < 2 ^ 32)
    (hk : k * pageSize < size) : pageOf address + k < 2 ^ 20 := by
  simp only [pageOf, pageSize] at *
  omega

/-- Mappings that stay keep the regions backed. -/
theorem Backed.congr_memory (hstate : Backed state) (hpaging : Paging.WellFormed memory.paging)
    (hsame : ∀ page < 2 ^ 20, ∀ entry, entryOf state.memory.paging page = some entry →
      entryOf memory.paging page = some entry) : Backed ⟨state.manager, memory⟩ where
  start_aligned := hstate.start_aligned
  paging := hpaging
  aligned := hstate.aligned
  physical_le := hstate.physical_le
  mapped := fun region hmem hend k hk => by
    obtain ⟨entry, hentry, hframe⟩ := hstate.mapped region hmem hend k hk
    exact ⟨entry, hsame _ (pageOf_add_lt hend hk) entry hentry, hframe⟩

theorem frame_land_mask {value : ℕ} (haligned : pageSize ∣ value) (hvalue : value < 2 ^ 32) :
    value &&& 0xFFFFF000 = value := by
  have hmask : value &&& 0xFFFFF000 = value / 2 ^ 12 * 2 ^ 12 :=
    @land_mask value 12 32 hvalue (by decide)
  rw [hmask]
  exact Nat.div_mul_cancel haligned

theorem Backed.call (hstate : Backed state) (hphysical : request.physicalAddress < 2 ^ 32)
    (hrange : request.physicalAddress + request.size ≤ 2 ^ 32)
    (hcall : state.manager.mapPhysical fuel request state.memory =
      .ok (some region, after, memory)) : Backed ⟨after, memory⟩ := by
  obtain ⟨hphysical', hsize, hscan, hstart', hsize', rfl, hloop⟩ := mapPhysical_eq_some hcall
  have hdvd : pageSize ∣ region.size := hsize' ▸ Nat.dvd_of_mod_eq_zero hsize
  have hdvd' : pageSize ∣ request.physicalAddress := Nat.dvd_of_mod_eq_zero hphysical'
  have haddress : pageSize ∣ region.startAddress :=
    scanLoop_aligned (hsize' ▸ hdvd) hstate.start_aligned hscan
  have hlimit : pageSize ∣ u32 (region.startAddress + region.size) :=
    u32_aligned ((Nat.dvd_add_right haddress).mpr hdvd)
  obtain ⟨hpaging, hkeeps, hmapped⟩ :=
    mapLoop_eq_ok hstate.paging haddress hlimit (u32_lt _) hphysical hloop
  have hold := hstate.congr_memory hpaging hkeeps
  have hall : ∀ {property : IOMemoryRegion → Prop},
      (∀ other ∈ state.manager.regionList, property other) → property region →
        ∀ other ∈ state.manager.regionList ++ [region], property other := by
    intro property hothers hnew other hmem
    rcases List.mem_append.mp hmem with hmem | hmem
    · exact hothers other hmem
    · rw [List.mem_singleton.mp hmem]
      exact hnew
  refine ⟨hstate.start_aligned, hpaging, hall hold.aligned ⟨haddress, hstart' ▸ hdvd'⟩,
    hall hold.physical_le ?_, hall hold.mapped fun hend k hk => ?_⟩
  · rwa [hstart', hsize']
  · obtain ⟨entry, hentry, hframe⟩ := hmapped k (by rw [u32_of_lt hend]; omega)
    have hlt : request.physicalAddress + k * pageSize < 2 ^ 32 := by omega
    rw [u32_of_lt hlt,
      frame_land_mask ((Nat.dvd_add_right hdvd').mpr (Nat.dvd_mul_left _ _)) hlt] at hframe
    exact ⟨entry, hentry, hstart' ▸ hframe⟩

theorem MapStep.backed (hstep : MapStep state state') (hstate : Backed state) :
    Backed state' := by
  cases hstep with
  | call hphysical hrange hcall => exact hstate.call hphysical hrange hcall
  | other hpaging hsame => exact hstate.congr_memory hpaging hsame

theorem Backed.run (hstate : Backed state) (hrun : Relation.ReflTransGen MapStep state state') :
    Backed state' := by
  induction hrun with
  | refl => exact hstate
  | tail _ hstep ih => exact hstep.backed ih

/-! ## Translating -/

theorem Backed.find_eq_some_iff (hstate : Backed state) :
    state.manager.findRegionEnclosingPhysicalAddress p = some region ↔
      FirstBelowTop state.manager p region := by
  have htest : ∀ other ∈ state.manager.regionList,
      (p ≥ other.startAddressPhysical &&
          p < u32 (other.startAddressPhysical + other.size)) = true ↔
        other.EnclosesPhysical p ∧ other.startAddressPhysical + other.size < 2 ^ 32 := by
    intro other hmem
    have hle := hstate.physical_le other hmem
    rw [Bool.and_eq_true, decide_eq_true_eq, decide_eq_true_eq, IOMemoryRegion.EnclosesPhysical]
    rcases hle.lt_or_eq with hlt | htop
    · rw [u32_of_lt hlt]
      tauto
    · rw [htop]
      simp [u32]
  rw [findRegionEnclosingPhysicalAddress, List.find?_eq_some_iff_append, FirstBelowTop, ← and_assoc]
  constructor
  · rintro ⟨hfound, front, back, hlist, hfront⟩
    have hmem : region ∈ state.manager.regionList := by simp [hlist]
    refine ⟨(htest region hmem).mp hfound, front, back, hlist, fun other hother hencloses => ?_⟩
    have hmem' : other ∈ state.manager.regionList := by simp [hlist, hother]
    have hle := hstate.physical_le other hmem'
    by_contra hne
    have htrue := (htest other hmem').mpr ⟨hencloses, by omega⟩
    have hfalse := hfront other hother
    rw [htrue] at hfalse
    cases hfalse
  · rintro ⟨hencloses, front, back, hlist, hfront⟩
    have hmem : region ∈ state.manager.regionList := by simp [hlist]
    refine ⟨(htest region hmem).mpr hencloses, front, back, hlist, fun other hother => ?_⟩
    have hmem' : other ∈ state.manager.regionList := by simp [hlist, hother]
    rw [Bool.not_eq_true', Bool.eq_false_iff]
    intro htrue
    obtain ⟨hencloses', hlt⟩ := (htest other hmem').mp htrue
    exact absurd (hfront other hother hencloses') hlt.ne

/-- The two offsets cancel. -/
theorem translatePhysicalAddress_of_find
    (hfind : manager.findRegionEnclosingPhysicalAddress p = some region)
    (hencloses : region.EnclosesPhysical p) (haligned : pageSize ∣ region.startAddressPhysical)
    (hp : p < 2 ^ 32) (hend : region.startAddress + region.size < 2 ^ 32) :
    manager.translatePhysicalAddress p =
      region.startAddress + (p - region.startAddressPhysical) := by
  have hmask : p &&& 0xFFFFF000 = p / 2 ^ 12 * 2 ^ 12 := @land_mask p 12 32 hp (by decide)
  obtain ⟨hlow, hhigh⟩ := hencloses
  simp only [translatePhysicalAddress, hfind, hmask]
  simp only [pageSize, sub32, u32] at *
  omega

theorem FirstBelowTop.mem (hfirst : FirstBelowTop manager p region) :
    region ∈ manager.regionList := by
  obtain ⟨-, -, front, back, hlist, -⟩ := hfirst
  simp [hlist]

theorem Backed.translate_of_first (hstate : Backed state)
    (hfirst : FirstBelowTop state.manager p region)
    (hend : region.startAddress + region.size < 2 ^ 32) :
    state.manager.translatePhysicalAddress p =
      region.startAddress + (p - region.startAddressPhysical) :=
  translatePhysicalAddress_of_find (hstate.find_eq_some_iff.mpr hfirst) hfirst.1
    (hstate.aligned region hfirst.mem).2 (hfirst.1.2.trans hfirst.2.1) hend

/-- Only an address in some region is translated. -/
theorem Backed.exists_first (hstate : Backed state)
    (hne : state.manager.translatePhysicalAddress p ≠ 0) :
    ∃ region, FirstBelowTop state.manager p region := by
  cases hfind : state.manager.findRegionEnclosingPhysicalAddress p with
  | none =>
      refine absurd ?_ hne
      rw [translatePhysicalAddress, hfind]
  | some region => exact ⟨region, hstate.find_eq_some_iff.mp hfind⟩

/-- A region that is found has the address mapped. -/
theorem Backed.translates (hstate : Backed state)
    (hfirst : FirstBelowTop state.manager p region)
    (hend : region.startAddress + region.size < 2 ^ 32)
    (hzero : region.startAddress = 0 → p ≠ region.startAddressPhysical) :
    Translates state p := by
  have hmem := hfirst.mem
  have htranslate := hstate.translate_of_first hfirst hend
  obtain ⟨⟨hlow, hhigh⟩, htop, -⟩ := id hfirst
  obtain ⟨haligned, -⟩ := hstate.aligned region hmem
  obtain ⟨k, rest, hrest, hp⟩ : ∃ k rest, rest < pageSize ∧
      p - region.startAddressPhysical = k * pageSize + rest :=
    ⟨_, _, Nat.mod_lt _ (by decide), (Nat.div_add_mod' _ _).symm⟩
  obtain ⟨entry, hentry, hframe⟩ := hstate.mapped region hmem hend k (by omega)
  have hpage : pageOf (region.startAddress + (p - region.startAddressPhysical)) =
      pageOf region.startAddress + k := by
    simp only [pageOf, pageSize] at *
    omega
  have hoffset : (region.startAddress + (p - region.startAddressPhysical)) &&& 0xFFF = rest := by
    rw [offset_eq]
    simp only [pageSize] at *
    omega
  rw [← hpage] at hentry
  refine ⟨?_, ⟨region, hmem, hfirst.1, ?_⟩, ?_, ?_⟩ <;> rw [htranslate]
  · omega
  · omega
  · rw [hstate.paging.isPresent_eq (by omega), hentry]
    rfl
  · rw [getPhysicalAddress_eq, hentry]
    simp only
    rw [hframe, hoffset]
    omega

/-- Unless the region it is looked up in runs over the end of the address space, an
address is translated back exactly if a region encloses it whose physical range ends in
front of 4 GiB, and the first such region does not have it at the null pointer. -/
theorem translates_iff {initial : IOState} (hstart : pageSize ∣ initial.manager.iomemStart)
    (hempty : initial.manager.regionList = []) (hpaging : Paging.WellFormed initial.memory.paging)
    (hrun : Relation.ReflTransGen MapStep initial state)
    (hends : ∀ region, FirstBelowTop state.manager p region →
      region.startAddress + region.size < 2 ^ 32) :
    Translates state p ↔ ∃ region, FirstBelowTop state.manager p region ∧
      (region.startAddress = 0 → p ≠ region.startAddressPhysical) := by
  have hstate := (Backed.initial hstart hempty hpaging).run hrun
  constructor
  · intro htranslates
    obtain ⟨region, hfirst⟩ := hstate.exists_first htranslates.ne_zero
    refine ⟨region, hfirst, fun hzero hp => htranslates.ne_zero ?_⟩
    rw [hstate.translate_of_first hfirst (hends region hfirst), hzero, hp, Nat.sub_self]
  · rintro ⟨region, hfirst, hzero⟩
    exact hstate.translates hfirst (hends region hfirst) hzero

/-! ## One page -/

/-- A page of device memory. -/
def pageRequest (physical : ℕ) : MapRequest := ⟨physical, 0x1000, some "device"⟩

theorem pageRequest_proper {physical : ℕ} (haligned : physical % pageSize = 0)
    (hlow : 0x100000 ≤ physical) (hhigh : physical < 2 ^ 32) :
    ProperCall (pageRequest physical) bareMemory where
  physical_lt := hhigh
  physical_aligned := haligned
  size_aligned := show 0x1000 % pageSize = 0 by decide
  size_pos := show 0 < 0x1000 by decide
  size_lt := show 0x1000 < 2 ^ 32 by decide
  named := rfl
  used := fun page hpage => by
    change page * pageSize < 0x1000 at hpage
    change bareMemory.allocator.isFree (u32 (physical + page * pageSize)) = _
    have hframes : bareMemory.allocator.nFrames = 32 := by decide
    obtain rfl : page = 0 := by
      simp only [pageSize] at hpage
      omega
    rw [isFree, if_neg]
    rw [hframes, Nat.zero_mul, Nat.add_zero, u32_of_lt hhigh]
    simp only [pageSize]
    omega

/-- The first page of a window of three. -/
theorem exists_mapStep {physical : ℕ} (haligned : physical % pageSize = 0)
    (hlow : 0x100000 ≤ physical) (hhigh : physical + 0x1000 ≤ 2 ^ 32) :
    ∃ region state, MapStep (bareState 0x3000) state ∧ state.manager.regionList = [region] ∧
      region.startAddress = 0xE0000000 ∧ region.startAddressPhysical = physical ∧
      region.size = 0x1000 := by
  have hproper := pageRequest_proper haligned hlow (by omega)
  have hconsistent := (bareState_initial 0x3000).consistent (by decide) (by decide)
  have hhole : (bareState 0x3000).manager.Hole 0x1000 0xE0000000 :=
    ⟨by decide, by decide, by decide, by simp [bareState]⟩
  have hscan : (bareState 0x3000).manager.scanLoop 0x1000 2 0xE0000000 0 =
      .ok (some 0xE0000000) := by rfl
  obtain ⟨region, memory', hcall, hstart, hsize, -⟩ :=
    mapPhysical_some hconsistent hproper hhole
      (show 0xE0000000 + 0x1000 < 0xE0000000 + 0x3000 by decide) hscan
  obtain ⟨-, -, -, hphysical, -⟩ := mapPhysical_eq_some hcall
  exact ⟨region, _, .call (by change physical < 2 ^ 32; omega) hhigh hcall, rfl, hstart,
    hphysical, hsize⟩

/-- An address in the middle of a page. -/
theorem translates_iff_onePage :
    ∃ state, state.manager.regionList ≠ [] ∧
      (Translates state 0x10000800 ↔ ∃ region, FirstBelowTop state.manager 0x10000800 region ∧
        (region.startAddress = 0 → 0x10000800 ≠ region.startAddressPhysical)) := by
  obtain ⟨region, state, hstep, hlist, hstart, hphysical, hsize⟩ :=
    @exists_mapStep 0x10000000 (by decide) (by decide) (by decide)
  refine ⟨state, by simp [hlist], translates_iff (by decide) rfl (bareState_initial 0x3000).paging
    (.single hstep) ?_⟩
  rintro other ⟨-, -, front, back, hother, -⟩
  have hmem : other ∈ [region] := by simp [← hlist, hother]
  rw [List.mem_singleton.mp hmem, hstart, hsize]
  decide

/-- The last page of the physical address space cannot be translated back. -/
theorem lastPage_not_translated :
    ¬ ∀ (initial state : IOState) (p : ℕ), pageSize ∣ initial.manager.iomemStart →
      0 < initial.manager.iomemStart → initial.manager.regionList = [] →
      Paging.WellFormed initial.memory.paging → Relation.ReflTransGen MapStep initial state →
      (∃ region ∈ state.manager.regionList, region.EnclosesPhysical p) → Translates state p := by
  intro hall
  obtain ⟨region, state, hstep, hlist, -, hphysical, hsize⟩ :=
    @exists_mapStep 0xFFFFF000 (by decide) (by decide) (by decide)
  have hencloses : region.EnclosesPhysical 0xFFFFF000 := by
    rw [IOMemoryRegion.EnclosesPhysical, hphysical, hsize]
    decide
  have htranslates := hall (bareState 0x3000) state 0xFFFFF000 (by decide) (by decide) rfl
    (bareState_initial 0x3000).paging (.single hstep) ⟨region, by simp [hlist], hencloses⟩
  refine htranslates.ne_zero ?_
  simp [translatePhysicalAddress, findRegionEnclosingPhysicalAddress, hlist, hphysical, hsize, u32]

end GeexOS.IOMemory
