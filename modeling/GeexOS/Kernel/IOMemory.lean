import GeexOS.Kernel.LazyRegion

/-!
# Placing regions in I/O memory

The manager looks for enough free pages in a row behind a cursor.  It compares
their number before it looks at the next page, so that free pages at the very
end of the window are not found, and the cursor of a window that ends in the
last page of the address space goes on at address 0.
-/

namespace GeexOS.IOMemory

open GeexOS.Words
open GeexOS.Halting
open GeexOS.PhysicalAllocator
open GeexOS.PhysicalAllocator.BitfieldPhysicalMemoryAllocator
open GeexOS.Paging
open GeexOS.LazyRegion

structure IOMemoryRegion where
  startAddress : ℕ
  startAddressPhysical : ℕ
  size : ℕ
  name : String
  deriving DecidableEq

structure IOMemoryManager where
  iomemStart : ℕ
  iomemSize : ℕ
  regionList : List IOMemoryRegion

/-- The arguments of `MapPhysical`; the name may be NULL. -/
structure MapRequest where
  physicalAddress : ℕ
  size : ℕ
  regionName : Option String

def physicalNotAligned : Halt := .assertion
  "Physical address of IO memory region to create must be page aligned"

def sizeNotAligned : Halt := .assertion
  "Size of IO memory region to create must be page aligned"

def nameMissing : Halt := .assertion "A name for the IO memory region must be supplied"

def frameNotUsed : Halt := .assertion
  "Physical frame to be mapped manually into I/O Memory is not marked as used"

def alreadyPresent : Halt := .assertion
  "Virtual address which should be mapped manually to a physical frame is already present"

namespace IOMemoryManager

def findRegionEnclosingVirtualAddress (manager : IOMemoryManager) (virtualAddress : ℕ) :
    Option IOMemoryRegion :=
  manager.regionList.find? fun curRegion => virtualAddress ≥ curRegion.startAddress &&
    virtualAddress < u32 (curRegion.startAddress + curRegion.size)

/-- The loop of `MapPhysical`: where the region is to begin, if there is room for it. -/
def scanLoop (manager : IOMemoryManager) (size : ℕ) :
    (fuel curAddr continousFreeSpace : ℕ) → Outcome (Option ℕ)
  | 0, _, _ => .error .diverges
  | fuel + 1, curAddr, continousFreeSpace =>
      if curAddr < u32 (manager.iomemStart + manager.iomemSize) then
        if continousFreeSpace ≥ size then .ok (some (sub32 curAddr size))
        else
          let continousFreeSpace :=
            if manager.findRegionEnclosingVirtualAddress curAddr = none then
              u32 (continousFreeSpace + pageSize)
            else 0
          scanLoop manager size fuel (u32 (curAddr + pageSize)) continousFreeSpace
      else .ok none

/-- The loop of `Allocate`. -/
def mapLoop (limit : ℕ) :
    (fuel i physicalAddress : ℕ) → PagedMemory → Outcome PagedMemory
  | 0, _, _, _ => .error .diverges
  | fuel + 1, i, physicalAddress, memory =>
      if i < limit then do
        if ← memory.allocator.isFree physicalAddress then .error frameNotUsed
        else if memory.paging.isPresent i then .error alreadyPresent
        else
          let paging ← memory.paging.mapAddress i physicalAddress true false
          mapLoop limit fuel (u32 (i + pageSize)) (u32 (physicalAddress + pageSize))
            { memory with paging }
      else .ok memory

/-- A 32-bit address space has `2^20` pages. -/
def allocate (manager : IOMemoryManager) (virtualAddress physicalAddress size : ℕ)
    (regionName : String) (memory : PagedMemory) :
    Outcome (IOMemoryRegion × IOMemoryManager × PagedMemory) := do
  let region : IOMemoryRegion := ⟨virtualAddress, physicalAddress, size, regionName⟩
  let memory ← mapLoop (u32 (virtualAddress + size)) (2 ^ 20 + 1) virtualAddress physicalAddress
    memory
  .ok (region, { manager with regionList := manager.regionList ++ [region] }, memory)

/-- The region is nothing where the function returns NULL.  `fuel` bounds the iterations of
the search. -/
def mapPhysical (manager : IOMemoryManager) (fuel : ℕ) (request : MapRequest)
    (memory : PagedMemory) :
    Outcome (Option IOMemoryRegion × IOMemoryManager × PagedMemory) :=
  if request.physicalAddress % pageSize ≠ 0 then .error physicalNotAligned
  else if request.size % pageSize ≠ 0 then .error sizeNotAligned
  else
    match request.regionName with
    | none => .error nameMissing
    | some regionName => do
        match ← manager.scanLoop request.size fuel manager.iomemStart 0 with
        | none => .ok (none, manager, memory)
        | some address =>
            let (region, manager, memory) ←
              manager.allocate address request.physicalAddress request.size regionName memory
            .ok (some region, manager, memory)

/-- The end of the window, in unbounded arithmetic. -/
def limit (manager : IOMemoryManager) : ℕ := manager.iomemStart + manager.iomemSize

def IsFree (manager : IOMemoryManager) (address : ℕ) : Prop :=
  manager.findRegionEnclosingVirtualAddress address = none

/-- A place in the window that no region has a part of. -/
structure Hole (manager : IOMemoryManager) (size address : ℕ) : Prop where
  aligned : pageSize ∣ address
  start_le : manager.iomemStart ≤ address
  end_le : address + size ≤ manager.limit
  apart : ∀ region ∈ manager.regionList, address + size ≤ region.startAddress ∨
    region.startAddress + region.size ≤ address

/-- The regions are in the window, in front of its end. -/
structure WellPlaced (manager : IOMemoryManager) : Prop where
  start_aligned : pageSize ∣ manager.iomemStart
  limit_le : manager.limit ≤ 2 ^ 32
  regions_aligned : ∀ region ∈ manager.regionList, pageSize ∣ region.startAddress
  sizes_aligned : ∀ region ∈ manager.regionList, pageSize ∣ region.size
  sizes_pos : ∀ region ∈ manager.regionList, 0 < region.size
  start_le : ∀ region ∈ manager.regionList, manager.iomemStart ≤ region.startAddress
  end_lt : ∀ region ∈ manager.regionList, region.startAddress + region.size < manager.limit

end IOMemoryManager

open IOMemoryManager

variable {manager : IOMemoryManager} {request : MapRequest} {memory : PagedMemory}
variable {size address curAddr free fuel : ℕ} {found : Option ℕ}

/-! ## Free pages -/

theorem IOMemoryManager.WellPlaced.isFree_iff (hplaced : manager.WellPlaced) (address : ℕ) :
    manager.IsFree address ↔ ∀ region ∈ manager.regionList,
      address < region.startAddress ∨ region.startAddress + region.size ≤ address := by
  rw [IsFree, findRegionEnclosingVirtualAddress, List.find?_eq_none]
  refine forall₂_congr fun region hmem => ?_
  have hend := (hplaced.end_lt region hmem).trans_le hplaced.limit_le
  rw [u32_of_lt hend]
  simp only [Bool.and_eq_true, decide_eq_true_iff]
  omega

/-- A hole is made of free pages. -/
theorem IOMemoryManager.WellPlaced.hole_iff (hplaced : manager.WellPlaced)
    (haligned : pageSize ∣ address)
    (hsize : 0 < size) (hstart : manager.iomemStart ≤ address)
    (hend : address + size ≤ manager.limit) :
    manager.Hole size address ↔
      ∀ page, pageSize ∣ page → address ≤ page → page < address + size → manager.IsFree page := by
  constructor
  · intro hhole page _ hlow hhigh
    rw [hplaced.isFree_iff]
    intro region hmem
    have hpos := hplaced.sizes_pos region hmem
    rcases hhole.apart region hmem with hbelow | habove
    · exact Or.inl (hhigh.trans_le hbelow)
    · exact Or.inr (habove.trans hlow)
  · refine fun hpages => ⟨haligned, hstart, hend, fun region hmem => ?_⟩
    have hpos := hplaced.sizes_pos region hmem
    -- otherwise one of them begins inside of the other
    rcases Nat.le_total address region.startAddress with hle | hle
    · left
      by_contra hinside
      have hpage := (hplaced.isFree_iff _).mp (hpages region.startAddress
        (hplaced.regions_aligned region hmem) hle (by omega)) region hmem
      omega
    · right
      by_contra hinside
      have hpage := (hplaced.isFree_iff _).mp
        (hpages address haligned le_rfl (by omega)) region hmem
      omega

/-! ## The search -/

/-- What is known when the cursor has come to an address. -/
structure Scanned (manager : IOMemoryManager) (size curAddr free : ℕ) : Prop where
  aligned : pageSize ∣ curAddr
  free_aligned : pageSize ∣ free
  start_le : manager.iomemStart + free ≤ curAddr
  pages : ∀ page, pageSize ∣ page → curAddr - free ≤ page → page < curAddr →
    manager.IsFree page
  behind : curAddr = manager.iomemStart + free ∨
    ¬ manager.IsFree (curAddr - free - pageSize)
  holes : ∀ address, manager.Hole size address → curAddr ≤ address + size

theorem scanned_start (hplaced : manager.WellPlaced) (size : ℕ) :
    Scanned manager size manager.iomemStart 0 where
  aligned := hplaced.start_aligned
  free_aligned := dvd_zero _
  start_le := le_rfl
  pages := fun page _ hlow hhigh => by omega
  behind := Or.inl rfl
  holes := fun address hhole => hhole.start_le.trans (Nat.le_add_right _ _)

/-- Enough free pages are a hole. -/
theorem Scanned.hole (hscanned : Scanned manager size curAddr free)
    (hplaced : manager.WellPlaced) (hdvd : pageSize ∣ size) (hsize : 0 < size)
    (hcur : curAddr ≤ manager.limit) (henough : size ≤ free) :
    manager.Hole size (curAddr - size) := by
  have hlow := hscanned.start_le
  rw [hplaced.hole_iff (Nat.dvd_sub hscanned.aligned hdvd) hsize (by omega) (by omega)]
  intro page hpage hge hlt
  exact hscanned.pages page hpage (by omega) (by omega)

/-- No hole ends at the cursor if there are not enough free pages. -/
theorem Scanned.not_hole (hscanned : Scanned manager size curAddr free)
    (hplaced : manager.WellPlaced) (hsize : 0 < size) (hdvd : pageSize ∣ size)
    (hfew : free < size) {address : ℕ} (hhole : manager.Hole size address) :
    curAddr + pageSize ≤ address + size := by
  have hpages := (hplaced.hole_iff hhole.aligned hsize hhole.start_le hhole.end_le).mp hhole
  have hle := hscanned.holes address hhole
  have hlow := hhole.start_le
  have haligned := hhole.aligned
  have hstart := hplaced.start_aligned
  obtain ⟨hcur, hfree, hsum, _, hbehind, _⟩ := hscanned
  simp only [pageSize] at *
  by_contra hend
  have heq : address + size = curAddr := by omega
  rcases hbehind with hfirst | hused
  · omega
  · exact hused (hpages _ (by omega) (by omega) (by omega))

/-- One page further. -/
theorem Scanned.next (hscanned : Scanned manager size curAddr free)
    (hplaced : manager.WellPlaced) (hsize : 0 < size) (hdvd : pageSize ∣ size)
    (hfew : free < size) :
    Scanned manager size (curAddr + pageSize)
      (if manager.findRegionEnclosingVirtualAddress curAddr = none then free + pageSize
        else 0) := by
  have hcur := hscanned.aligned
  have hfree := hscanned.free_aligned
  have hlow := hscanned.start_le
  have haligned : pageSize ∣ curAddr + pageSize := (Nat.dvd_add_self_right).mpr hcur
  have hholes : ∀ address, manager.Hole size address → curAddr + pageSize ≤ address + size :=
    fun address hhole => hscanned.not_hole hplaced hsize hdvd hfew hhole
  split
  · rename_i hisFree
    refine ⟨haligned, (Nat.dvd_add_self_right).mpr hfree, by omega, fun page hpage hge hlt => ?_,
      ?_, hholes⟩
    · rcases Nat.lt_or_ge page curAddr with hbefore | hafter
      · exact hscanned.pages page hpage (by omega) hbefore
      · obtain rfl : page = curAddr := by
          simp only [pageSize] at *
          omega
        exact hisFree
    · rw [Nat.add_sub_add_right, ← Nat.add_assoc]
      exact hscanned.behind.imp (congrArg (· + pageSize)) id
  · rename_i hused
    refine ⟨haligned, dvd_zero _, by omega, fun page hpage hge hlt => by omega, Or.inr ?_,
      hholes⟩
    rwa [Nat.sub_zero, Nat.add_sub_cancel]

/-- The search of a window finds the hole with the lowest end in front of the window's own
end, or learns that there is none. -/
theorem scanLoop_of_scanned (hplaced : manager.WellPlaced) (hlimit : manager.limit < 2 ^ 32)
    (hsize : 0 < size) (hdvd : pageSize ∣ size)
    (hends : manager.limit + pageSize ≤ 2 ^ 32 ∨
      ∃ address, manager.Hole size address ∧ address + size < manager.limit)
    (hscanned : Scanned manager size curAddr free) (hcur : curAddr < 2 ^ 32)
    (hfuel : manager.limit ≤ curAddr + fuel * pageSize) :
    ∃ found, manager.scanLoop size (fuel + 1) curAddr free = .ok found ∧
      match found with
      | some address => manager.Hole size address ∧ address + size < manager.limit
      | none => ∀ address, manager.Hole size address → manager.limit ≤ address + size := by
  have hword : u32 (manager.iomemStart + manager.iomemSize) = manager.limit := u32_of_lt hlimit
  have hlow := hscanned.start_le
  induction fuel generalizing curAddr free with
  | zero =>
      have hbehind : ¬ curAddr < manager.limit := by omega
      refine ⟨none, by rw [scanLoop, hword, if_neg hbehind], fun address hhole => ?_⟩
      exact (not_lt.mp hbehind).trans (hscanned.holes address hhole)
  | succ fuel ih =>
      rw [scanLoop, hword]
      by_cases hinside : curAddr < manager.limit
      · rw [if_pos hinside]
        by_cases henough : free ≥ size
        · have hsub : sub32 curAddr size = curAddr - size := sub32_of_le hcur (by omega)
          have hend : curAddr - size + size = curAddr := Nat.sub_add_cancel (by omega)
          refine ⟨_, if_pos henough, ?_⟩
          rw [hsub]
          exact ⟨hscanned.hole hplaced hdvd hsize hinside.le henough, by rwa [hend]⟩
        · have hnext := hscanned.next hplaced hsize hdvd (not_le.mp henough)
          -- the cursor does not get past the end of the address space
          have hroom : curAddr + pageSize < 2 ^ 32 := by
            have haligned := hscanned.aligned
            rcases hends with hend | ⟨address, hhole, hend⟩
            · simp only [pageSize] at *
              omega
            · have hbehind := hnext.holes address hhole
              omega
          have hfree : u32 (free + pageSize) = free + pageSize := u32_of_lt (by omega)
          rw [if_neg henough, u32_of_lt hroom, hfree]
          exact ih hnext hroom (by rw [Nat.add_mul] at hfuel; omega) hnext.start_le
      · refine ⟨none, if_neg hinside, fun address hhole => ?_⟩
        exact (not_lt.mp hinside).trans (hscanned.holes address hhole)

/-- A search that has ended does not depend on the bound. -/
theorem scanLoop_fuel {fuel' : ℕ} (hscan : manager.scanLoop size fuel curAddr free = .ok found)
    (hle : fuel ≤ fuel') : manager.scanLoop size fuel' curAddr free = .ok found := by
  induction fuel generalizing fuel' curAddr free with
  | zero => cases hscan
  | succ fuel ih =>
      obtain ⟨fuel', rfl⟩ : ∃ less, fuel' = less + 1 := ⟨fuel' - 1, by omega⟩
      rw [scanLoop] at hscan ⊢
      split
      · rename_i hinside
        rw [if_pos hinside] at hscan
        split
        · rename_i henough
          rwa [if_pos henough] at hscan
        · rename_i hfew
          rw [if_neg hfew] at hscan
          exact ih hscan (Nat.le_of_succ_le_succ hle)
      · rename_i houtside
        rwa [if_neg houtside] at hscan

theorem u32_aligned {value : ℕ} (haligned : pageSize ∣ value) : pageSize ∣ u32 value := by
  simp only [pageSize, u32] at *
  omega

/-- A region begins at a page. -/
theorem scanLoop_aligned (hdvd : pageSize ∣ size) (hcur : pageSize ∣ curAddr)
    (hscan : manager.scanLoop size fuel curAddr free = .ok (some address)) :
    pageSize ∣ address := by
  induction fuel generalizing curAddr free with
  | zero => cases hscan
  | succ fuel ih =>
      rw [scanLoop] at hscan
      split at hscan
      · split at hscan
        · obtain rfl := Option.some.inj (Except.ok.inj hscan)
          simp only [pageSize, sub32, u32] at *
          omega
        · exact ih (u32_aligned ((Nat.dvd_add_self_right).mpr hcur)) hscan
      · cases hscan

/-- The cursor of a window that ends in the last page never gets to its end. -/
theorem scanLoop_ne_none (hlimit : manager.limit < 2 ^ 32)
    (hlast : 2 ^ 32 < manager.limit + pageSize) (hcur : pageSize ∣ curAddr)
    (hlt : curAddr < 2 ^ 32) : manager.scanLoop size fuel curAddr free ≠ .ok none := by
  have hword : u32 (manager.iomemStart + manager.iomemSize) = manager.limit := u32_of_lt hlimit
  induction fuel generalizing curAddr free with
  | zero => exact fun hscan => by cases hscan
  | succ fuel ih =>
      have hinside : curAddr < manager.limit := by
        simp only [pageSize] at *
        omega
      rw [scanLoop, hword, if_pos hinside]
      split
      · exact fun hscan => by cases hscan
      · exact ih (u32_aligned ((Nat.dvd_add_self_right).mpr hcur)) (u32_lt _)

/-! ## Mapping -/

/-- Nothing is mapped at the page of an address. -/
def Absent (memory : PagedMemory) (page : ℕ) : Prop := entryOf memory.paging page = none

/-- The pages from `i` to the limit are mapped, and no others. -/
theorem mapLoop_eq {limit i physicalAddress : ℕ} (hpaging : Paging.WellFormed memory.paging)
    (hi : pageSize ∣ i) (hlimit : pageSize ∣ limit) (hlt : limit < 2 ^ 32)
    (hused : ∀ page, i + page * pageSize < limit →
      memory.allocator.isFree (u32 (physicalAddress + page * pageSize)) = .ok false)
    (habsent : ∀ page, i ≤ page * pageSize → page * pageSize < limit → Absent memory page)
    (hfuel : limit ≤ i + fuel * pageSize) (hphysical : physicalAddress < 2 ^ 32) :
    ∃ memory', mapLoop limit (fuel + 1) i physicalAddress memory = .ok memory' ∧
      Paging.WellFormed memory'.paging ∧ ∀ page < 2 ^ 20,
        (page * pageSize < i ∨ limit ≤ page * pageSize) →
          entryOf memory'.paging page = entryOf memory.paging page := by
  induction fuel generalizing i physicalAddress memory with
  | zero =>
      exact ⟨memory, by rw [mapLoop, if_neg (by omega)], hpaging, fun _ _ _ => rfl⟩
  | succ fuel ih =>
      rw [mapLoop]
      split
      · rename_i hinside
        obtain ⟨first, rfl⟩ := hi
        obtain ⟨last, rfl⟩ := hlimit
        have hpos : 0 < pageSize := by decide
        have hcomm : pageSize * first = first * pageSize := Nat.mul_comm _ _
        have hroom : pageSize * first + pageSize ≤ pageSize * last := by
          simp only [pageSize] at *
          omega
        have hfirst : first < 2 ^ 20 := by
          simp only [pageSize] at *
          omega
        have hpage : pageOf (pageSize * first) = first :=
          Nat.mul_div_cancel_left first (by decide)
        have hframe : memory.allocator.isFree physicalAddress = .ok false := by
          have hfirst := hused 0 (by omega)
          rwa [Nat.zero_mul, Nat.add_zero, u32_of_lt hphysical] at hfirst
        have hvirt : pageSize * first < 2 ^ 32 := hinside.trans hlt
        have hpresent : memory.paging.isPresent (pageSize * first) = false := by
          rw [hpaging.isPresent_eq hvirt, hpage, habsent first hcomm.le (hcomm ▸ hinside)]
          rfl
        obtain ⟨paging', entry, hmap, hpaging', _, _, _, hentries⟩ :=
          hpaging.mapAddress hvirt physicalAddress true false
        rw [hpage] at hentries
        obtain ⟨memory', hloop, hwellFormed, hsame⟩ := @ih { memory with paging := paging' }
          (pageSize * first + pageSize) (u32 (physicalAddress + pageSize)) hpaging'
          ((Nat.dvd_add_self_right).mpr (Nat.dvd_mul_right _ _))
          (fun page hpage => by
            have hnext := hused (page + 1) (by rw [Nat.add_mul]; omega)
            rw [Nat.add_mul, Nat.one_mul] at hnext
            have hplace : u32 (u32 (physicalAddress + pageSize) + page * pageSize) =
                u32 (physicalAddress + (page * pageSize + pageSize)) := by
              simp only [u32]
              omega
            rw [hplace]
            exact hnext)
          (fun page hlow hhigh => by
            have hother : page ≠ first := by
              rintro rfl
              omega
            have hpageLt : page < 2 ^ 20 := by
              simp only [pageSize] at *
              omega
            rw [Absent, hentries page hpageLt, if_neg hother]
            exact habsent page (by omega) hhigh)
          (by rw [Nat.add_mul] at hfuel; omega) (u32_lt _)
        refine ⟨memory', ?_, hwellFormed, fun page hpageLt houtside => ?_⟩
        · rw [hframe, ok_bind, if_neg Bool.false_ne_true, hpresent, if_neg Bool.false_ne_true,
            hmap, ok_bind, u32_of_lt (hroom.trans_lt hlt)]
          exact hloop
        · have hother : page ≠ first := by
            rintro rfl
            omega
          rw [hsame page hpageLt (by omega), hentries page hpageLt, if_neg hother]
      · exact ⟨memory, rfl, hpaging, fun _ _ _ => rfl⟩

end GeexOS.IOMemory
