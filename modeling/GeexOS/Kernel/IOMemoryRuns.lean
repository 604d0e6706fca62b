import GeexOS.Kernel.IOMemory
import Mathlib.Logic.Relation

/-!
# Runs of the I/O memory manager

As long as every request can be met in front of the end of the window, or cannot
be met at all, the regions stay apart from each other.
-/

namespace GeexOS.IOMemory

open GeexOS.Words
open GeexOS.Halting
open GeexOS.PhysicalAllocator
open GeexOS.PhysicalAllocator.BitfieldPhysicalMemoryAllocator
open GeexOS.Paging
open GeexOS.LazyRegion
open IOMemoryManager

/-- A call that passes the assertions on its arguments and on the frames. -/
structure ProperCall (request : MapRequest) (memory : PagedMemory) : Prop where
  physical_lt : request.physicalAddress < 2 ^ 32
  physical_aligned : request.physicalAddress % pageSize = 0
  size_aligned : request.size % pageSize = 0
  size_pos : 0 < request.size
  size_lt : request.size < 2 ^ 32
  named : request.regionName.isSome
  used : ∀ page, page * pageSize < request.size →
    memory.allocator.isFree (u32 (request.physicalAddress + page * pageSize)) = .ok false

/-- The call returns: a region in the window and apart from those that there are already, or
NULL if there is no hole. -/
def CallOk (manager : IOMemoryManager) (memory : PagedMemory) (request : MapRequest) : Prop :=
  ∃ fuel found after memory', manager.mapPhysical fuel request memory =
      .ok (found, after, memory') ∧
    match found with
    | some region => region.size = request.size ∧ manager.iomemStart ≤ region.startAddress ∧
        region.startAddress + region.size ≤ manager.limit ∧
        (∀ other ∈ manager.regionList,
          region.startAddress + region.size ≤ other.startAddress ∨
            other.startAddress + other.size ≤ region.startAddress) ∧
        after.regionList = manager.regionList ++ [region]
    | none => (∀ address, ¬ manager.Hole request.size address) ∧ after = manager

/-- The regions are in the window and apart from each other. -/
structure Separate (manager : IOMemoryManager) : Prop where
  start_le : ∀ region ∈ manager.regionList, manager.iomemStart ≤ region.startAddress
  end_le : ∀ region ∈ manager.regionList, region.startAddress + region.size ≤ manager.limit
  apart : manager.regionList.Pairwise fun region other =>
    region.startAddress + region.size ≤ other.startAddress ∨
      other.startAddress + other.size ≤ region.startAddress

/-- There is a hole that ends in front of the end of the window.  Or there is none at all,
and the window does not end inside of the last page of the address space. -/
def Placeable (manager : IOMemoryManager) (size : ℕ) : Prop :=
  (manager.limit < 2 ^ 32 ∧
      ∃ address, manager.Hole size address ∧ address + size < manager.limit) ∨
    (∀ address, ¬ manager.Hole size address) ∧
      (manager.limit + pageSize ≤ 2 ^ 32 ∨ manager.limit = 2 ^ 32)

structure IOState where
  manager : IOMemoryManager
  memory : PagedMemory

/-- Nothing is mapped in the free pages of the window. -/
def WindowClear (state : IOState) : Prop :=
  ∀ page, state.manager.iomemStart ≤ page * pageSize →
    page * pageSize < state.manager.limit → state.manager.IsFree (page * pageSize) →
      Absent state.memory page

/-- A call that can be met or refused, or anything else that the kernel does with its
memory, apart from the window. -/
inductive IOStep : IOState → IOState → Prop
  | call {state : IOState} {request : MapRequest} {fuel : ℕ} {found : Option IOMemoryRegion}
      {manager : IOMemoryManager} {memory : PagedMemory}
      (hproper : ProperCall request state.memory)
      (hplaceable : Placeable state.manager request.size)
      (hcall : state.manager.mapPhysical fuel request state.memory =
        .ok (found, manager, memory)) :
      IOStep state ⟨manager, memory⟩
  | other {state : IOState} {memory : PagedMemory}
      (hpaging : Paging.WellFormed memory.paging)
      (hsame : ∀ page, state.manager.iomemStart ≤ page * pageSize →
        page * pageSize < state.manager.limit → Absent state.memory page → Absent memory page) :
      IOStep state ⟨state.manager, memory⟩

/-- What holds between two calls. -/
structure Consistent (iomemStart iomemSize : ℕ) (state : IOState) : Prop where
  start_eq : state.manager.iomemStart = iomemStart
  size_eq : state.manager.iomemSize = iomemSize
  placed : state.manager.WellPlaced
  apart : state.manager.regionList.Pairwise fun region other =>
    region.startAddress + region.size ≤ other.startAddress ∨
      other.startAddress + other.size ≤ region.startAddress
  paging : Paging.WellFormed state.memory.paging
  clear : WindowClear state

variable {iomemStart iomemSize size address fuel : ℕ} {state state' : IOState}
variable {manager after : IOMemoryManager} {memory memory' : PagedMemory}
variable {request : MapRequest} {found : Option IOMemoryRegion}

theorem ProperCall.dvd_size (hproper : ProperCall request memory) : pageSize ∣ request.size :=
  Nat.dvd_of_mod_eq_zero hproper.size_aligned

/-! ## One call -/

/-- Two searches of one window do not end differently. -/
theorem scanLoop_unique {fuel' curAddr free : ℕ} {first second : Option ℕ}
    (hfirst : manager.scanLoop size fuel curAddr free = .ok first)
    (hsecond : manager.scanLoop size fuel' curAddr free = .ok second) : first = second := by
  have hleft := scanLoop_fuel hfirst (Nat.le_max_left fuel fuel')
  have hright := scanLoop_fuel hsecond (Nat.le_max_right fuel fuel')
  exact Except.ok.inj (hleft.symm.trans hright)

theorem scanLoop_wrapped (hlimit : manager.limit = 2 ^ 32) (curAddr free : ℕ) :
    manager.scanLoop size (fuel + 1) curAddr free = .ok none := by
  have hword : u32 (manager.iomemStart + manager.iomemSize) = 0 := by
    rw [limit] at hlimit
    rw [hlimit]
    decide
  rw [scanLoop, hword, if_neg (Nat.not_lt_zero curAddr)]

/-- The search of a window in which the cursor is not lost. -/
theorem exists_scan (hplaced : manager.WellPlaced) (hlimit : manager.limit < 2 ^ 32)
    (hsize : 0 < size) (hdvd : pageSize ∣ size)
    (hends : manager.limit + pageSize ≤ 2 ^ 32 ∨
      ∃ address, manager.Hole size address ∧ address + size < manager.limit) :
    ∃ fuel found, manager.scanLoop size fuel manager.iomemStart 0 = .ok found ∧
      match found with
      | some address => manager.Hole size address ∧ address + size < manager.limit
      | none => ∀ address, manager.Hole size address → manager.limit ≤ address + size := by
  have hstart : manager.iomemStart < 2 ^ 32 := by
    rw [limit] at hlimit
    omega
  have hfuel : manager.limit ≤ manager.iomemStart + 2 ^ 20 * pageSize := by
    simp only [pageSize]
    omega
  obtain ⟨found, hscan⟩ := scanLoop_of_scanned hplaced hlimit hsize hdvd hends
    (scanned_start hplaced size) hstart hfuel
  exact ⟨_, found, hscan⟩

theorem exists_scan_of_placeable (hplaced : manager.WellPlaced) (hsize : 0 < size)
    (hdvd : pageSize ∣ size) (hplaceable : Placeable manager size) :
    ∃ fuel found, manager.scanLoop size fuel manager.iomemStart 0 = .ok found ∧
      match found with
      | some address => manager.Hole size address ∧ address + size < manager.limit
      | none => ∀ address, ¬ manager.Hole size address := by
  rcases hplaceable with ⟨hlimit, address, hhole, hend⟩ | ⟨hnone, hlimit | hlimit⟩
  · obtain ⟨fuel, found, hscan, hfound⟩ :=
      exists_scan hplaced hlimit hsize hdvd (Or.inr ⟨address, hhole, hend⟩)
    cases found with
    | some other => exact ⟨fuel, _, hscan, hfound⟩
    | none => exact absurd (hfound address hhole) (not_le.mpr hend)
  · have hpos : 0 < pageSize := by decide
    obtain ⟨fuel, found, hscan, hfound⟩ :=
      exists_scan hplaced (by omega) hsize hdvd (Or.inl hlimit)
    cases found with
    | some other => exact absurd hfound.1 (hnone other)
    | none => exact ⟨fuel, _, hscan, hnone⟩
  · exact ⟨1, none, scanLoop_wrapped hlimit _ _, hnone⟩

/-- What a call does after its search. -/
theorem mapPhysical_eq_ok (hcall : manager.mapPhysical fuel request memory =
    .ok (found, after, memory')) :
    ∃ place, manager.scanLoop request.size fuel manager.iomemStart 0 = .ok place ∧
      match place with
      | none => found = none ∧ after = manager ∧ memory' = memory
      | some address => ∃ region, found = some region ∧ region.startAddress = address ∧
          region.size = request.size ∧ after.regionList = manager.regionList ++ [region] := by
  rw [mapPhysical] at hcall
  split at hcall
  · cases hcall
  split at hcall
  · cases hcall
  split at hcall
  · cases hcall
  · obtain ⟨place, hscan, hcall⟩ := bind_eq_ok.mp hcall
    refine ⟨place, hscan, ?_⟩
    cases place with
    | none =>
        obtain ⟨rfl, hrest⟩ := Prod.mk.inj (Except.ok.inj hcall)
        obtain ⟨rfl, rfl⟩ := Prod.mk.inj hrest
        exact ⟨rfl, rfl, rfl⟩
    | some address =>
        obtain ⟨⟨region, manager', memory₁⟩, hallocate, hcall⟩ := bind_eq_ok.mp hcall
        obtain ⟨memory₂, _, hallocate⟩ := bind_eq_ok.mp hallocate
        obtain ⟨rfl, hrest⟩ := Prod.mk.inj (Except.ok.inj hallocate)
        obtain ⟨rfl, rfl⟩ := Prod.mk.inj hrest
        obtain ⟨rfl, hrest⟩ := Prod.mk.inj (Except.ok.inj hcall)
        obtain ⟨rfl, rfl⟩ := Prod.mk.inj hrest
        exact ⟨_, rfl, rfl, rfl, rfl⟩

theorem mapPhysical_none (hproper : ProperCall request memory)
    (hscan : manager.scanLoop request.size fuel manager.iomemStart 0 = .ok none) :
    manager.mapPhysical fuel request memory = .ok (none, manager, memory) := by
  obtain ⟨name, hname⟩ := Option.isSome_iff_exists.mp hproper.named
  rw [mapPhysical, if_neg (not_not.mpr hproper.physical_aligned),
    if_neg (not_not.mpr hproper.size_aligned), hname]
  simp only [hscan, ok_bind]

/-- A region is added to a hole, and its pages are mapped. -/
theorem mapPhysical_some (hconsistent : Consistent iomemStart iomemSize state)
    (hproper : ProperCall request state.memory)
    (hhole : state.manager.Hole request.size address)
    (hend : address + request.size < state.manager.limit)
    (hscan : state.manager.scanLoop request.size fuel state.manager.iomemStart 0 =
      .ok (some address)) :
    ∃ region memory', state.manager.mapPhysical fuel request state.memory =
        .ok (some region,
          { state.manager with regionList := state.manager.regionList ++ [region] }, memory') ∧
      region.startAddress = address ∧ region.size = request.size ∧
      Paging.WellFormed memory'.paging ∧ ∀ page < 2 ^ 20,
        (page * pageSize < address ∨ address + request.size ≤ page * pageSize) →
          entryOf memory'.paging page = entryOf state.memory.paging page := by
  obtain ⟨name, hname⟩ := Option.isSome_iff_exists.mp hproper.named
  have hplaced := hconsistent.placed
  have hlt : address + request.size < 2 ^ 32 := hend.trans_le hplaced.limit_le
  have hfree := (hplaced.hole_iff hhole.aligned hproper.size_pos hhole.start_le hhole.end_le).mp
    hhole
  obtain ⟨memory', hloop, hpaging, hsame⟩ := mapLoop_eq hconsistent.paging hhole.aligned
    ((Nat.dvd_add_right hhole.aligned).mpr hproper.dvd_size) hlt
    (fun page hpage => hproper.used page (by omega))
    (fun page hlow hhigh => hconsistent.clear page (hhole.start_le.trans hlow)
      (hhigh.trans hend) (hfree _ (Nat.dvd_mul_left _ _) hlow hhigh))
    (show address + request.size ≤ address + 2 ^ 20 * pageSize by simp only [pageSize]; omega)
    hproper.physical_lt
  refine ⟨⟨address, request.physicalAddress, request.size, name⟩, memory', ?_, rfl, rfl, hpaging,
    hsame⟩
  rw [mapPhysical, if_neg (not_not.mpr hproper.physical_aligned),
    if_neg (not_not.mpr hproper.size_aligned), hname]
  simp only [hscan, ok_bind, allocate, u32_of_lt hlt, hloop]

/-- A manager with one more region in a hole. -/
theorem IOMemoryManager.Hole.wellPlaced (hhole : manager.Hole size address)
    (hplaced : manager.WellPlaced)
    (hend : address + size < manager.limit) (hdvd : pageSize ∣ size) (hpos : 0 < size)
    {region : IOMemoryRegion} (hstart : region.startAddress = address)
    (hsize : region.size = size) :
    ({ manager with
        regionList := manager.regionList ++ [region] } : IOMemoryManager).WellPlaced := by
  have hall : ∀ {property : IOMemoryRegion → Prop},
      (∀ other ∈ manager.regionList, property other) → property region →
        ∀ other ∈ manager.regionList ++ [region], property other := by
    intro property hold hnew other hmem
    rcases List.mem_append.mp hmem with hmem | hmem
    · exact hold other hmem
    · rw [List.mem_singleton.mp hmem]
      exact hnew
  exact
    { start_aligned := hplaced.start_aligned
      limit_le := hplaced.limit_le
      regions_aligned := hall hplaced.regions_aligned (hstart ▸ hhole.aligned)
      sizes_aligned := hall hplaced.sizes_aligned (hsize ▸ hdvd)
      sizes_pos := hall hplaced.sizes_pos (hsize ▸ hpos)
      start_le := hall hplaced.start_le (hstart ▸ hhole.start_le)
      end_lt := hall hplaced.end_lt (by
        rw [hstart, hsize]
        exact hend) }

/-! ## Runs -/

theorem Consistent.call (hconsistent : Consistent iomemStart iomemSize state)
    (hproper : ProperCall request state.memory)
    (hplaceable : Placeable state.manager request.size)
    (hcall : state.manager.mapPhysical fuel request state.memory = .ok (found, after, memory')) :
    Consistent iomemStart iomemSize ⟨after, memory'⟩ := by
  have hplaced := hconsistent.placed
  obtain ⟨fuel', place, hscan, hplace⟩ := exists_scan_of_placeable hplaced hproper.size_pos
    hproper.dvd_size hplaceable
  obtain ⟨other, hscan', _⟩ := mapPhysical_eq_ok hcall
  obtain rfl := scanLoop_unique hscan hscan'
  cases place with
  | none =>
      rw [mapPhysical_none hproper hscan'] at hcall
      obtain ⟨rfl, hrest⟩ := Prod.mk.inj (Except.ok.inj hcall)
      obtain ⟨rfl, rfl⟩ := Prod.mk.inj hrest
      exact hconsistent
  | some address =>
      obtain ⟨hhole, hend⟩ := hplace
      obtain ⟨region, memory₁, hmap, hstart, hsize, hpaging, hsame⟩ :=
        mapPhysical_some hconsistent hproper hhole hend hscan'
      rw [hmap] at hcall
      obtain ⟨rfl, hrest⟩ := Prod.mk.inj (Except.ok.inj hcall)
      obtain ⟨rfl, rfl⟩ := Prod.mk.inj hrest
      have hafter := hhole.wellPlaced hplaced hend hproper.dvd_size hproper.size_pos hstart hsize
      refine ⟨hconsistent.start_eq, hconsistent.size_eq, hafter, ?_, hpaging, ?_⟩
      · refine List.pairwise_append.mpr
          ⟨hconsistent.apart, List.pairwise_singleton _ _, fun other hmem last hlast => ?_⟩
        rw [List.mem_singleton.mp hlast, hstart, hsize]
        exact (hhole.apart other hmem).symm
      · intro page hlow hhigh hfree
        have hfree' := (hafter.isFree_iff _).mp hfree
        have hnew := hfree' region (List.mem_append_right _ (List.mem_singleton_self _))
        have hold : state.manager.IsFree (page * pageSize) :=
          (hplaced.isFree_iff _).mpr fun other hmem => hfree' other (List.mem_append_left _ hmem)
        have hpage : page < 2 ^ 20 := by
          have hlimit := hplaced.limit_le
          simp only [limit, pageSize] at *
          omega
        rw [hstart, hsize] at hnew
        rw [Absent, hsame page hpage hnew]
        exact hconsistent.clear page hlow hhigh hold

theorem Consistent.step (hconsistent : Consistent iomemStart iomemSize state)
    (hstep : IOStep state state') : Consistent iomemStart iomemSize state' := by
  cases hstep with
  | call hproper hplaceable hcall => exact hconsistent.call hproper hplaceable hcall
  | other hpaging hsame =>
      exact
        { hconsistent with
          paging := hpaging
          clear := fun page hlow hhigh hfree =>
            hsame page hlow hhigh (hconsistent.clear page hlow hhigh hfree) }

/-- The manager as it is made, with nothing mapped in its window. -/
structure Initial (iomemStart iomemSize : ℕ) (state : IOState) : Prop where
  manager_eq : state.manager = ⟨iomemStart, iomemSize, []⟩
  paging : Paging.WellFormed state.memory.paging
  absent : ∀ page, iomemStart ≤ page * pageSize →
    page * pageSize < iomemStart + iomemSize → Absent state.memory page

theorem Initial.consistent (hinitial : Initial iomemStart iomemSize state)
    (hstart : pageSize ∣ iomemStart) (hlimit : iomemStart + iomemSize ≤ 2 ^ 32) :
    Consistent iomemStart iomemSize state := by
  obtain ⟨manager, memory⟩ := state
  obtain ⟨rfl, hpaging, habsent⟩ := hinitial
  exact
    { start_eq := rfl
      size_eq := rfl
      placed := ⟨hstart, hlimit, by simp, by simp, by simp, by simp, by simp⟩
      apart := .nil
      paging := hpaging
      clear := fun page hlow hhigh _ => habsent page hlow hhigh }

theorem Consistent.run (hconsistent : Consistent iomemStart iomemSize state)
    (hrun : Relation.ReflTransGen IOStep state state') :
    Consistent iomemStart iomemSize state' := by
  induction hrun with
  | refl => exact hconsistent
  | tail _ hstep ih => exact ih.step hstep

theorem Consistent.callOk_of_placeable (hconsistent : Consistent iomemStart iomemSize state)
    (hproper : ProperCall request state.memory)
    (hplaceable : Placeable state.manager request.size) :
    CallOk state.manager state.memory request := by
  obtain ⟨fuel, place, hscan, hplace⟩ := exists_scan_of_placeable hconsistent.placed
    hproper.size_pos hproper.dvd_size hplaceable
  cases place with
  | none => exact ⟨fuel, none, _, _, mapPhysical_none hproper hscan, hplace, rfl⟩
  | some address =>
      obtain ⟨hhole, hend⟩ := hplace
      obtain ⟨region, memory', hmap, hstart, hsize, _⟩ :=
        mapPhysical_some hconsistent hproper hhole hend hscan
      refine ⟨fuel, some region, _, memory', hmap, hsize, ?_⟩
      rw [hstart, hsize]
      exact ⟨hhole.start_le, hhole.end_le, hhole.apart, rfl⟩

/-- A call can only be right if the search has found the hole in time. -/
theorem Consistent.placeable_of_callOk (hconsistent : Consistent iomemStart iomemSize state)
    (hproper : ProperCall request state.memory)
    (hok : CallOk state.manager state.memory request) :
    Placeable state.manager request.size := by
  have hplaced := hconsistent.placed
  obtain ⟨fuel, found, after, memory', hcall, hfound⟩ := hok
  obtain ⟨place, hscan, hplace⟩ := mapPhysical_eq_ok hcall
  rcases Nat.lt_or_eq_of_le hplaced.limit_le with hlt | hlast
  · rcases Nat.lt_or_ge (2 ^ 32) (state.manager.limit + pageSize) with hwraps | hends
    · -- the search can only return a place
      have hstart : state.manager.iomemStart < 2 ^ 32 := by
        rw [limit] at hlt
        omega
      cases place with
      | none => exact absurd hscan (scanLoop_ne_none hlt hwraps hplaced.start_aligned hstart)
      | some address =>
          obtain ⟨region, rfl, rfl, _, _⟩ := hplace
          obtain ⟨hsize, hlow, hhigh, hapart, _⟩ := hfound
          have haligned := scanLoop_aligned hproper.dvd_size hplaced.start_aligned hscan
          have hdvd := hproper.dvd_size
          rw [hsize] at hhigh hapart
          refine Or.inl ⟨hlt, region.startAddress, ⟨haligned, hlow, hhigh, hapart⟩, ?_⟩
          simp only [pageSize] at *
          omega
    · obtain ⟨_, place', hscan', hplace'⟩ := exists_scan hplaced hlt hproper.size_pos
        hproper.dvd_size (Or.inl hends)
      obtain rfl := scanLoop_unique hscan hscan'
      cases place with
      | none =>
          obtain ⟨rfl, _, _⟩ := hplace
          exact Or.inr ⟨hfound.1, Or.inl hends⟩
      | some address => exact Or.inl ⟨hlt, address, hplace'⟩
  · obtain ⟨rest, rfl⟩ : ∃ rest, fuel = rest + 1 := by
      cases fuel with
      | zero => cases hscan
      | succ rest => exact ⟨rest, rfl⟩
    rw [scanLoop_wrapped hlast] at hscan
    obtain rfl := Except.ok.inj hscan
    obtain ⟨rfl, _, _⟩ := hplace
    exact Or.inr ⟨hfound.1, Or.inr hlast⟩

/-- In every state of a run the regions are apart, and a call places its region rightly
exactly if it is one that can be met in front of the window's end, or not at all. -/
theorem callOk_iff {initial : IOState} (hstart : pageSize ∣ iomemStart)
    (hlimit : iomemStart + iomemSize ≤ 2 ^ 32) (hinitial : Initial iomemStart iomemSize initial)
    (hrun : Relation.ReflTransGen IOStep initial state)
    (hproper : ProperCall request state.memory) :
    Separate state.manager ∧
      (CallOk state.manager state.memory request ↔ Placeable state.manager request.size) := by
  have hconsistent := (hinitial.consistent hstart hlimit).run hrun
  refine ⟨⟨hconsistent.placed.start_le, fun region hmem =>
    (hconsistent.placed.end_lt region hmem).le, hconsistent.apart⟩, ?_⟩
  exact ⟨hconsistent.placeable_of_callOk hproper, hconsistent.callOk_of_placeable hproper⟩

/-! ## The first request -/

/-- An empty directory, and 32 frames. -/
def bareMemory : PagedMemory :=
  ⟨X86Paging.newDirectory (fun _ _ => X86Page.zero) fun call => call + 1, new 128⟩

/-- `iomemSize` bytes from `KERNEL_IO_MEMORY_START` on. -/
def bareState (iomemSize : ℕ) : IOState := ⟨⟨0xE0000000, iomemSize, []⟩, bareMemory⟩

theorem bareState_initial (iomemSize : ℕ) :
    Initial 0xE0000000 iomemSize (bareState iomemSize) where
  manager_eq := rfl
  paging := wellFormed_newDirectory _ (fun call => Nat.succ_ne_zero call) Nat.succ_injective
  absent := fun _ _ _ => entryOf_of_none rfl

/-- Device memory, which is not managed as frames. -/
def deviceRequest (size : ℕ) : MapRequest := ⟨0x10000000, size, some "device"⟩

theorem deviceRequest_proper {memory : PagedMemory} (hallocator : memory.allocator = new 128)
    (hdvd : pageSize ∣ size) (hpos : 0 < size) (hlt : size ≤ 0x20000000) :
    ProperCall (deviceRequest size) memory where
  physical_lt := show 0x10000000 < 2 ^ 32 by decide
  physical_aligned := show 0x10000000 % pageSize = 0 by decide
  size_aligned := Nat.mod_eq_zero_of_dvd hdvd
  size_pos := hpos
  size_lt := by
    change size < 2 ^ 32
    omega
  named := rfl
  used := fun page hpage => by
    change page * pageSize < size at hpage
    change memory.allocator.isFree (u32 (0x10000000 + page * pageSize)) = _
    have hframes : (new 128).nFrames = 32 := by decide
    rw [hallocator, isFree, if_neg]
    rw [hframes, u32_of_lt (by omega)]
    simp only [pageSize]
    omega

/-- Mapping marks no frame. -/
theorem mapLoop_allocator {last i physical : ℕ}
    (hloop : mapLoop last fuel i physical memory = .ok memory') :
    memory'.allocator = memory.allocator := by
  induction fuel generalizing i physical memory with
  | zero => cases hloop
  | succ fuel ih =>
      rw [mapLoop] at hloop
      split at hloop
      · obtain ⟨free, -, hloop⟩ := bind_eq_ok.mp hloop
        split at hloop
        · cases hloop
        split at hloop
        · cases hloop
        obtain ⟨paging, -, hloop⟩ := bind_eq_ok.mp hloop
        exact (ih hloop :)
      · rw [Except.ok.inj hloop]

theorem mapPhysical_allocator (hcall : manager.mapPhysical fuel request memory =
    .ok (found, after, memory')) : memory'.allocator = memory.allocator := by
  rw [mapPhysical] at hcall
  split at hcall
  · cases hcall
  split at hcall
  · cases hcall
  split at hcall
  · cases hcall
  · obtain ⟨place, -, hcall⟩ := bind_eq_ok.mp hcall
    cases place with
    | none =>
        obtain ⟨-, hrest⟩ := Prod.mk.inj (Except.ok.inj hcall)
        rw [(Prod.mk.inj hrest).2]
    | some address =>
        obtain ⟨⟨region, manager', memory₁⟩, hallocate, hcall⟩ := bind_eq_ok.mp hcall
        obtain ⟨memory₂, hloop, hallocate⟩ := bind_eq_ok.mp hallocate
        obtain ⟨-, hrest⟩ := Prod.mk.inj (Except.ok.inj hallocate)
        obtain ⟨-, rfl⟩ := Prod.mk.inj hrest
        obtain ⟨-, hrest⟩ := Prod.mk.inj (Except.ok.inj hcall)
        rw [← (Prod.mk.inj hrest).2]
        exact mapLoop_allocator hloop

/-- The window of the kernel, from `KERNEL_IO_MEMORY_START` to `KERNEL_IO_MEMORY_END`, after a
first request. -/
theorem callOk_iff_kernelWindow : ∃ state,
    Relation.ReflTransGen IOStep (bareState 0x1FFFFFFF) state ∧ state.manager.regionList ≠ [] ∧
      Separate state.manager ∧ (CallOk state.manager state.memory (deviceRequest 0x3000) ↔
        Placeable state.manager (deviceRequest 0x3000).size) := by
  have hinitial := bareState_initial 0x1FFFFFFF
  have hproper : ProperCall (deviceRequest 0x2000) bareMemory :=
    deviceRequest_proper rfl (by decide) (by decide) (by decide)
  have hhole : (bareState 0x1FFFFFFF).manager.Hole 0x2000 0xE0000000 :=
    ⟨by decide, by decide, by decide, by simp [bareState]⟩
  have hplaceable : Placeable (bareState 0x1FFFFFFF).manager (deviceRequest 0x2000).size :=
    Or.inl ⟨by decide, 0xE0000000, hhole, by decide⟩
  obtain ⟨fuel, found, manager, memory, hcall, hfound⟩ :=
    (hinitial.consistent (by decide) (by decide)).callOk_of_placeable hproper hplaceable
  have hrun : Relation.ReflTransGen IOStep (bareState 0x1FFFFFFF) ⟨manager, memory⟩ :=
    .single (.call hproper hplaceable hcall)
  have hlater : ProperCall (deviceRequest 0x3000) memory :=
    deviceRequest_proper (mapPhysical_allocator hcall) (by decide) (by decide) (by decide)
  refine ⟨⟨manager, memory⟩, hrun, ?_, callOk_iff (by decide) (by decide) hinitial hrun hlater⟩
  cases found with
  | none => exact absurd hhole (hfound.1 _)
  | some region =>
      simp only [hfound.2.2.2.2]
      exact List.append_ne_nil_of_right_ne_nil _ (List.cons_ne_nil _ _)

/-- A window of one page has a hole for one page, but the search does not find it. -/
theorem not_callOk :
    ¬ ∀ (iomemStart iomemSize : ℕ) (initial state : IOState) (request : MapRequest),
      pageSize ∣ iomemStart → iomemStart + iomemSize ≤ 2 ^ 32 →
      Initial iomemStart iomemSize initial → Relation.ReflTransGen IOStep initial state →
      ProperCall request state.memory → CallOk state.manager state.memory request := by
  intro hall
  have hproper : ProperCall (deviceRequest 0x1000) bareMemory :=
    deviceRequest_proper rfl (by decide) (by decide) (by decide)
  have hok := hall 0xE0000000 0x1000 _ _ _ (by decide) (by decide) (bareState_initial 0x1000)
    .refl hproper
  have hconsistent := (bareState_initial 0x1000).consistent (by decide) (by decide)
  have hhole : (bareState 0x1000).manager.Hole 0x1000 0xE0000000 :=
    ⟨by decide, by decide, by decide, by simp [bareState]⟩
  rcases hconsistent.placeable_of_callOk hproper hok with ⟨_, address, hother, hend⟩ | ⟨hnone, _⟩
  · have hlow : 0xE0000000 ≤ address := hother.start_le
    have hend : address + 0x1000 < 0xE0000000 + 0x1000 := hend
    omega
  · exact hnone _ hhole

/-- The window of the kernel is one byte shorter than 512 MB, and a request for as much is
neither met in the window nor refused. -/
theorem kernelWindow_not_callOk :
    ¬ CallOk (bareState 0x1FFFFFFF).manager bareMemory (deviceRequest 0x20000000) := by
  intro hok
  have hproper : ProperCall (deviceRequest 0x20000000) bareMemory :=
    deviceRequest_proper rfl (by decide) (by decide) (by decide)
  have hconsistent := (bareState_initial 0x1FFFFFFF).consistent (by decide) (by decide)
  rcases hconsistent.placeable_of_callOk hproper hok with ⟨_, address, hhole, _⟩ | ⟨_, hlimit⟩
  · have hlow : 0xE0000000 ≤ address := hhole.start_le
    have hend : address + 0x20000000 ≤ 0xE0000000 + 0x1FFFFFFF := hhole.end_le
    omega
  · have hkernel : ¬ (0xE0000000 + 0x1FFFFFFF + pageSize ≤ 2 ^ 32 ∨
        0xE0000000 + 0x1FFFFFFF = 2 ^ 32) := by decide
    exact hkernel hlimit

end GeexOS.IOMemory
