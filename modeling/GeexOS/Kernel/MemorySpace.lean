import GeexOS.Kernel.FrameSearch
import GeexOS.Kernel.PageOwnership

/-!
# The virtual memory space

A space lists regions, and a page fault is handed to the listed region around the faulting
address.  Regions are made and destroyed, listed and taken off the list, get other flags and
map pages.  In whatever order `Permitted` calls come, no two pages of the regions share a
frame, and every mapped page lets through what the flags of its region say.
-/

namespace GeexOS.MemorySpace

open GeexOS.Words
open GeexOS.Halting
open GeexOS.PhysicalAllocator
open GeexOS.Paging
open GeexOS.LazyRegion
open GeexOS.LazyRegion.VirtualMemoryRegion

/-- The classes of regions that differ in their constructor or in how they take a fault.
Buddy regions and the slab allocator hand their faults up to `LazyMemoryRegion`. -/
inductive RegionClass where
  | kernelProgram
  | lazy
  | swapped
  deriving DecidableEq, Repr

structure MemoryRegion extends VirtualMemoryRegion where
  regionClass : RegionClass

/-- `regions` holds the region objects that exist, by their addresses. -/
structure VirtualMemorySpace where
  regions : ℕ → Option MemoryRegion
  memoryRegionList : List ℕ
  memory : PagedMemory

def startNotAligned : Halt := .assertion "Start address needs to be page aligned."

def sizeNotAligned : Halt :=
  .assertion "Size of a region must be a multiple of the page size."

/-- What the page fault handler prints behind the first words. -/
def faultText : String :=
  " ( << NonPresent << WriteOperation << Usermode << ReservedBit << InstructionFetch << " ++
  ") at << hex << faultingAddress << EIP: << faultingInstruction"

def notInitialized : Halt :=
  .panic ("Memory manager isn't initialized yet and a pagefault occured" ++ faultText)

def unresolveable : Halt := .panic ("Unresolveable page fault!" ++ faultText)

namespace MemoryRegion

/-- The loop of the constructor of `KernelProgramMemoryRegion`. -/
def markLoop : (fuel curAddress length : ℕ) → PagedMemory → Outcome PagedMemory
  | 0, _, _, _ => .error .diverges
  | fuel + 1, curAddress, length, memory =>
      if length ≠ 0 then do
        let memory ← markPage curAddress memory
        markLoop fuel (u32 (curAddress + pageSize)) (sub32 length pageSize) memory
      else .ok memory

/-- The constructors. -/
def construct (region : MemoryRegion) (memory : PagedMemory) : Outcome PagedMemory :=
  if region.startAddress % pageSize ≠ 0 then .error startNotAligned
  else if region.size % pageSize ≠ 0 then .error sizeNotAligned
  else
    match region.regionClass with
    | .kernelProgram => markLoop (2 ^ 20 + 1) region.startAddress region.size memory
    | .lazy => .ok memory
    | .swapped => .ok memory

/-- The destructor. -/
def destruct (region : MemoryRegion) (memory : PagedMemory) : Outcome PagedMemory :=
  region.unmapPages region.startAddress region.size memory

/-- The virtual `HandlePageFault`.  Nothing is swapped out, so nothing is swapped in. -/
def takePageFault (region : MemoryRegion) (faultingAddress : ℕ) (memory : PagedMemory) :
    Outcome PagedMemory :=
  match region.regionClass with
  | .kernelProgram => .error notResolved
  | .lazy => region.toVirtualMemoryRegion.handlePageFault faultingAddress memory
  | .swapped => .ok memory

end MemoryRegion

namespace VirtualMemorySpace

def addRegion (space : VirtualMemorySpace) (region : ℕ) : VirtualMemorySpace :=
  { space with memoryRegionList := space.memoryRegionList ++ [region] }

def removeRegion (space : VirtualMemorySpace) (region : ℕ) : VirtualMemorySpace :=
  { space with memoryRegionList := space.memoryRegionList.erase region }

def setRegion (space : VirtualMemorySpace) (r : ℕ) (region : Option MemoryRegion) :
    VirtualMemorySpace :=
  { space with regions := Function.update space.regions r region }

theorem setRegion_self (space : VirtualMemorySpace) (r : ℕ) (region : Option MemoryRegion) :
    (space.setRegion r region).regions r = region := Function.update_self ..

theorem setRegion_of_ne (space : VirtualMemorySpace) {r other : ℕ} (hne : other ≠ r)
    (region : Option MemoryRegion) :
    (space.setRegion r region).regions other = space.regions other :=
  Function.update_of_ne hne ..

/-- Code of the region object at an address. -/
def withRegion (space : VirtualMemorySpace) (r : ℕ)
    (body : MemoryRegion → PagedMemory → Outcome PagedMemory) : Outcome VirtualMemorySpace :=
  match space.regions r with
  | none => .error .fault
  | some region => do
      let memory ← body region space.memory
      .ok { space with memory := memory }

/-- `for(Address i = r->startAddress; i < r->startAddress + r->size; i += PAGE_SIZE)`. -/
def remapPages (f : ℕ) (region : MemoryRegion) (memory : PagedMemory) : Outcome PagedMemory :=
  pageLoop (remapPage f) (u32 (region.startAddress + region.size)) (2 ^ 20 + 1)
    region.startAddress memory

def setFlags (space : VirtualMemorySpace) (r f : ℕ) : Outcome VirtualMemorySpace :=
  (space.setRegion r ((space.regions r).map fun region => { region with flags := f })).withRegion
    r (remapPages f)

def findRegionEnclosingAddress (space : VirtualMemorySpace) (addr : ℕ) : Option MemoryRegion :=
  space.memoryRegionList.findSome? fun curRegion =>
    (space.regions curRegion).filter fun region =>
      addr ≥ region.startAddress ∧ addr < u32 (region.startAddress + region.size)

def handlePageFault (space : VirtualMemorySpace) (faultingAddress : ℕ) :
    Outcome (Bool × VirtualMemorySpace) :=
  match space.findRegionEnclosingAddress faultingAddress with
  | none => .ok (false, space)
  | some faultingRegion => do
      let memory ← faultingRegion.takePageFault faultingAddress space.memory
      .ok (true, { space with memory := memory })

end VirtualMemorySpace

open VirtualMemorySpace

/-- `x86PageFaultHandler::Resolve`. -/
def resolve (currentSpace : Option VirtualMemorySpace) (faultingAddress : ℕ) :
    Outcome VirtualMemorySpace :=
  match currentSpace with
  | none => .error notInitialized
  | some space => do
      let (resolved, space) ← space.handlePageFault faultingAddress
      if !resolved then .error unresolveable else .ok space

/-- What happens to a space and its regions; `new` and `delete` give and take the address of
an object. -/
inductive SpaceCall where
  | construct (r : ℕ) (region : MemoryRegion)
  | destroy (r : ℕ)
  | addRegion (r : ℕ)
  | removeRegion (r : ℕ)
  | setFlags (r f : ℕ)
  | mapFreshPages (r start length : ℕ)
  | unmapPages (r start length : ℕ)
  | pageFault (faultingAddress : ℕ)

def perform (space : VirtualMemorySpace) : SpaceCall → Outcome VirtualMemorySpace
  | .construct r region => do
      let memory ← region.construct space.memory
      .ok (setRegion { space with memory := memory } r (some region))
  | .destroy r => do
      let space ← space.withRegion r MemoryRegion.destruct
      .ok (space.setRegion r none)
  | .addRegion r => .ok (space.addRegion r)
  | .removeRegion r => .ok (space.removeRegion r)
  | .setFlags r f => space.setFlags r f
  | .mapFreshPages r start length =>
      space.withRegion r fun region => region.mapFreshPages start length
  | .unmapPages r start length =>
      space.withRegion r fun region => region.unmapPages start length
  | .pageFault faultingAddress => resolve (some space) faultingAddress

/-- The pages of all regions. -/
def VirtualMemorySpace.owned (space : VirtualMemorySpace) : Set ℕ :=
  {page | ∃ r region, space.regions r = some region ∧ region.Has page}

/-- A region that may be made: it ends inside the address space, no other region has its
pages, and a region of the kernel's program finds its pages mapped with the proper flags
while the others find them unmapped. -/
structure MayConstruct (space : VirtualMemorySpace) (r : ℕ) (region : MemoryRegion) : Prop where
  unused : space.regions r = none
  end_lt : region.startAddress + region.size < 2 ^ 32
  apart : ∀ page, region.Has page → page ∉ space.owned
  mapped : region.regionClass = .kernelProgram → ∀ page entry, region.Has page →
    entryOf space.memory.paging page = some entry → Carries region.flags entry
  absent : region.regionClass ≠ .kernelProgram → ∀ page, region.Has page →
    frameOf space.memory page = none

/-- What the callers have to see to: a listed region is not destroyed, an object is listed
once, and no mapped page is mapped again. -/
def Permitted (space : VirtualMemorySpace) : SpaceCall → Prop
  | .construct r region => MayConstruct space r region
  | .destroy r => r ∉ space.memoryRegionList
  | .addRegion r => space.regions r ≠ none ∧ r ∉ space.memoryRegionList
  | .removeRegion r => r ∈ space.memoryRegionList
  | .mapFreshPages _ start length => ∀ page, InRange start length page →
      frameOf space.memory page = none
  | .pageFault faultingAddress => faultingAddress < 2 ^ 32
  | .setFlags _ _ => True
  | .unmapPages _ _ _ => True

/-- One call that comes back. -/
def SpaceStep (before after : VirtualMemorySpace) : Prop :=
  ∃ call, Permitted before call ∧ perform before call = .ok after

structure Sound (reserved : Set ℕ) (space : VirtualMemorySpace) : Prop where
  backed : Backed reserved space.owned space.memory
  start_aligned : ∀ r region, space.regions r = some region → pageSize ∣ region.startAddress
  size_aligned : ∀ r region, space.regions r = some region → pageSize ∣ region.size
  end_lt : ∀ r region, space.regions r = some region →
    region.startAddress + region.size < 2 ^ 32
  disjoint : ∀ left right leftRegion rightRegion page, space.regions left = some leftRegion →
    space.regions right = some rightRegion → leftRegion.Has page → rightRegion.Has page →
    left = right
  listed : ∀ r ∈ space.memoryRegionList, space.regions r ≠ none
  nodup : space.memoryRegionList.Nodup
  carries : ∀ r region page entry, space.regions r = some region → region.Has page →
    entryOf space.memory.paging page = some entry → Carries region.flags entry

variable {reserved owned : Set ℕ} {space space' : VirtualMemorySpace}
variable {memory memory' middle : PagedMemory} {region : MemoryRegion}
variable {r flags first page last start length : ℕ}

/-! ## The loops of a region -/

/-- The pages of a range carry the flags, and the other pages keep their entries. -/
def Edits (flags first next : ℕ) (before after : PagedMemory) : Prop :=
  ∀ other < 2 ^ 20,
    (first ≤ other → other < next → ∀ entry, entryOf after.paging other = some entry →
      Carries flags entry) ∧
    (¬ (first ≤ other ∧ other < next) →
      entryOf after.paging other = entryOf before.paging other)

theorem Edits.refl (memory : PagedMemory) : Edits flags first first memory memory :=
  fun _ _ => ⟨fun hlow hhigh => by omega, fun _ => rfl⟩

theorem Edits.next (hedits : Edits flags first page memory middle) (hlow : first ≤ page)
    (hsame : ∀ other < 2 ^ 20, other ≠ page →
      entryOf memory'.paging other = entryOf middle.paging other)
    (hcarries : ∀ entry, entryOf memory'.paging page = some entry → Carries flags entry) :
    Edits flags first (page + 1) memory memory' := by
  intro other hother
  by_cases heq : other = page
  · subst heq
    exact ⟨fun _ _ => hcarries, fun hout => by omega⟩
  · obtain ⟨hinside, houtside⟩ := hedits other hother
    rw [hsame other hother heq]
    exact ⟨fun hfirst hnext => hinside hfirst (by omega), fun hout => houtside (by omega)⟩

/-- The pages of a range lose their entries, except for those on frame 0. -/
def Clears (first next : ℕ) (before after : PagedMemory) : Prop :=
  ∀ other < 2 ^ 20, entryOf after.paging other =
    if (first ≤ other ∧ other < next) ∧ frameOf before other ≠ some 0 then none
    else entryOf before.paging other

theorem Backed.mapPages {region : VirtualMemoryRegion}
    (hmemory : Backed reserved owned memory) (howned : ∀ page, region.Has page → page ∈ owned)
    (habsent : ∀ page, InRange start length page → frameOf memory page = none)
    (hcall : region.mapFreshPages start length memory = .ok memory') :
    Backed reserved owned memory' ∧
      ∃ first last, start = first * pageSize ∧ u32 (start + length) = last * pageSize ∧
        (∀ page, first ≤ page → page < last → region.Has page) ∧
        Edits region.flags first (max first last) memory memory' := by
  obtain ⟨first, last, rfl, hlimit, hlast, hhas, hloop⟩ := forPages_eq_ok hcall
  have hrange : ∀ page, first ≤ page → page < last →
      InRange (first * pageSize) length page := by
    intro page hlow hhigh
    refine ⟨Nat.mul_le_mul_right _ hlow, ?_, hhigh.trans hlast⟩
    calc page * pageSize < last * pageSize := mul_pageSize_lt_iff.mpr hhigh
      _ = u32 (first * pageSize + length) := hlimit.symm
      _ ≤ first * pageSize + length := Nat.mod_le _ _
  have hcarried := pageLoop_rule (fun page memory' =>
    Backed reserved owned memory' ∧ Edits region.flags first page memory memory') hlast
    (fun page before after hlow hhigh hbefore hturn => by
      obtain ⟨hbacked, hedits⟩ := hbefore
      have hlt : page < 2 ^ 20 := hhigh.trans hlast
      obtain ⟨frame, hmaps⟩ := hbacked.mapsFresh hlt hturn
      have hnone : frameOf before page = none := by
        rw [frameOf_eq_map, (hedits page hlt).2 (by omega)]
        exact habsent page (hrange page hlow hhigh)
      obtain ⟨entry, -, hcarries, hentries⟩ := hmaps.entry
      refine ⟨hbacked.mapFreshPage (howned page (hhas page hlow hhigh).1) hnone hmaps,
        hedits.next hlow (fun other hother hne => ?_) fun written hwritten => ?_⟩
      · rw [hentries other hother, if_neg hne]
      · rw [hentries page hlt, if_pos rfl, Option.some.injEq] at hwritten
        exact hwritten ▸ hcarries)
    ⟨hmemory, Edits.refl memory⟩ hloop
  exact ⟨hcarried.1, first, last, rfl, hlimit, fun page hlow hhigh => (hhas page hlow hhigh).1,
    hcarried.2⟩

theorem Backed.unmapPages {region : VirtualMemoryRegion}
    (hmemory : Backed reserved owned memory) (howned : ∀ page, region.Has page → page ∈ owned)
    (hcall : region.unmapPages start length memory = .ok memory') :
    Backed reserved owned memory' ∧
      ∃ first last, start = first * pageSize ∧ u32 (start + length) = last * pageSize ∧
        Clears first (max first last) memory memory' := by
  obtain ⟨first, last, rfl, hlimit, hlast, hhas, hloop⟩ := forPages_eq_ok hcall
  have hcarried := pageLoop_rule (fun page memory' =>
    Backed reserved owned memory' ∧ Clears first page memory memory') hlast
    (fun page before after hlow hhigh hbefore hturn => by
      obtain ⟨hbacked, hclears⟩ := hbefore
      have hlt : page < 2 ^ 20 := hhigh.trans hlast
      have hunmaps := hbacked.unmapsPage hlt hturn
      have hsame : frameOf before page = frameOf memory page := by
        rw [frameOf_eq_map, hclears page hlt, if_neg (by omega)]
        rfl
      refine ⟨hbacked.unmapPage (howned page (hhas page hlow hhigh).1) hunmaps,
        fun other hother => ?_⟩
      rw [hunmaps.entries other hother, hclears other hother, hsame]
      by_cases heq : other = page
      · subst heq
        simp only [true_and, lt_irrefl, and_false, false_and, if_false, hlow,
          Nat.lt_succ_self, and_true]
      · simp only [heq, false_and, if_false]
        exact if_congr (and_congr_left fun _ => by omega) rfl rfl)
    ⟨hmemory, fun other _ => by rw [if_neg (by omega)]⟩ hloop
  exact ⟨hcarried.1, first, last, rfl, hlimit, hcarried.2⟩

/-- A region between two page boundaries of the address space. -/
structure Spans (region : VirtualMemoryRegion) (first last : ℕ) : Prop where
  start_eq : region.startAddress = first * pageSize
  end_eq : region.startAddress + region.size = last * pageSize
  first_le : first ≤ last
  last_lt : last < 2 ^ 20

theorem exists_spans {region : VirtualMemoryRegion} (hstart : pageSize ∣ region.startAddress)
    (hsize : pageSize ∣ region.size) (hend : region.startAddress + region.size < 2 ^ 32) :
    ∃ first last, Spans region first last := by
  obtain ⟨first, hfirst⟩ := hstart
  obtain ⟨count, hcount⟩ := hsize
  refine ⟨first, first + count, hfirst.trans (Nat.mul_comm _ _), ?_, Nat.le_add_right _ _, ?_⟩
  · rw [hfirst, hcount, Nat.mul_comm, Nat.mul_comm _ count, Nat.add_mul]
  · rw [hfirst, hcount] at hend
    simp only [pageSize] at hend
    omega

theorem Spans.has_iff {region : VirtualMemoryRegion} (hspans : Spans region first last) :
    region.Has page ↔ first ≤ page ∧ page < last := by
  have hlast := hspans.last_lt
  rw [VirtualMemoryRegion.Has, hspans.end_eq, hspans.start_eq, mul_pageSize_lt_iff,
    Nat.mul_le_mul_right_iff (by decide)]
  constructor
  · exact fun hhas => ⟨hhas.1, hhas.2.1⟩
  · exact fun hinside => ⟨hinside.1, hinside.2, by omega⟩

theorem Spans.u32_end {region : VirtualMemoryRegion} (hspans : Spans region first last) :
    u32 (region.startAddress + region.size) = last * pageSize := by
  rw [hspans.end_eq]
  exact u32_of_lt (page_lt hspans.last_lt)

/-- The `for` loop of `SetFlags`. -/
theorem Backed.remapPages (hmemory : Backed reserved owned memory)
    (hspans : Spans region.toVirtualMemoryRegion first last)
    (hcall : VirtualMemorySpace.remapPages flags region memory = .ok memory') :
    Backed reserved owned memory' ∧ Edits flags first last memory memory' := by
  rw [VirtualMemorySpace.remapPages, hspans.u32_end, hspans.start_eq] at hcall
  have hcarried := pageLoop_rule (fun page memory' =>
    Backed reserved owned memory' ∧ Edits flags first page memory memory') hspans.last_lt
    (fun page before after hlow hhigh hbefore hturn => by
      have hremaps := hbefore.1.remaps (hhigh.trans hspans.last_lt) hturn
      exact ⟨hbefore.1.remapPage hremaps,
        hbefore.2.next hlow hremaps.entries hremaps.carries⟩)
    ⟨hmemory, Edits.refl memory⟩ hcall
  rwa [Nat.max_eq_right hspans.first_le] at hcarried

theorem Backed.markLoop {fuel count : ℕ} (hmemory : Backed reserved owned memory)
    (hlast : page + count < 2 ^ 20)
    (hloop : MemoryRegion.markLoop fuel (page * pageSize) (count * pageSize) memory =
      .ok memory') :
    memory'.paging = memory.paging ∧
      Backed reserved (owned ∪ {other | page ≤ other ∧ other < page + count}) memory' := by
  induction fuel generalizing page count memory owned with
  | zero => cases hloop
  | succ fuel ih =>
      rw [MemoryRegion.markLoop] at hloop
      cases count with
      | zero =>
          rw [Nat.zero_mul, if_neg (by decide), Except.ok.injEq] at hloop
          subst hloop
          have hnone : {other | page ≤ other ∧ other < page + 0} = (∅ : Set ℕ) :=
            Set.eq_empty_iff_forall_notMem.mpr fun other hother => by
              simp only [Set.mem_ofPred_eq] at hother
              omega
          rw [hnone, Set.union_empty]
          exact ⟨rfl, hmemory⟩
      | succ count =>
          have hmore : (count + 1) * pageSize ≠ 0 := by simp [pageSize]
          rw [if_pos hmore] at hloop
          obtain ⟨middle, hturn, hrest⟩ := bind_eq_ok.mp hloop
          have hlength : sub32 ((count + 1) * pageSize) pageSize = count * pageSize := by
            rw [sub32_of_le (page_lt (by omega)) (Nat.le_mul_of_pos_left _ (by omega)),
              Nat.succ_mul, Nat.add_sub_cancel]
          rw [u32_next hlast (by omega), hlength] at hrest
          obtain ⟨hpaging, hmarked⟩ := hmemory.markPage (by omega) hturn
          obtain ⟨hpaging', hbacked⟩ := ih hmarked (by omega) hrest
          refine ⟨hpaging'.trans hpaging, ?_⟩
          have hpages : insert page owned ∪ {other | page + 1 ≤ other ∧ other < page + 1 + count} =
              owned ∪ {other | page ≤ other ∧ other < page + (count + 1)} := by
            ext other
            simp only [Set.mem_union, Set.mem_insert_iff, Set.mem_ofPred_eq]
            by_cases heq : other = page
            · subst heq
              simp
            · simp only [heq, false_or]
              refine or_congr_right ?_
              omega
          rwa [hpages] at hbacked

/-- The constructor takes the pages of the region over. -/
theorem Backed.construct (hmemory : Backed reserved owned memory)
    (hend : region.startAddress + region.size < 2 ^ 32)
    (habsent : region.regionClass ≠ .kernelProgram → ∀ page, region.Has page →
      frameOf memory page = none)
    (hcall : region.construct memory = .ok memory') :
    pageSize ∣ region.startAddress ∧ pageSize ∣ region.size ∧
      memory'.paging = memory.paging ∧
      Backed reserved (owned ∪ {page | region.Has page}) memory' := by
  rw [MemoryRegion.construct] at hcall
  split_ifs at hcall with hstart hsize
  rw [not_not] at hstart hsize
  have hstart := Nat.dvd_of_mod_eq_zero hstart
  have hsize := Nat.dvd_of_mod_eq_zero hsize
  refine ⟨hstart, hsize, ?_⟩
  obtain ⟨first, last, hspans⟩ := exists_spans hstart hsize hend
  have hlast := hspans.last_lt
  have hunmapped : region.regionClass ≠ .kernelProgram → memory' = memory →
      memory'.paging = memory.paging ∧
        Backed reserved (owned ∪ {page | region.Has page}) memory' := by
    rintro hclass rfl
    exact ⟨rfl, hmemory.union_absent (fun page hpage => hpage.2.2) (habsent hclass)⟩
  cases hclass : region.regionClass with
  | kernelProgram =>
      rw [hclass] at hcall
      obtain ⟨count, rfl⟩ := Nat.exists_eq_add_of_le hspans.first_le
      have hcount : region.size = count * pageSize := by
        have hstartEq := hspans.start_eq
        have hendEq := hspans.end_eq
        rw [Nat.add_mul] at hendEq
        omega
      simp only [hspans.start_eq, hcount] at hcall
      obtain ⟨hpaging, hbacked⟩ := hmemory.markLoop hlast hcall
      have hpages : {page | region.Has page} = {page | first ≤ page ∧ page < first + count} :=
        Set.ext fun page => hspans.has_iff
      exact ⟨hpaging, hpages ▸ hbacked⟩
  | lazy =>
      rw [hclass] at hcall
      exact hunmapped (by simp [hclass]) (Except.ok.inj hcall).symm
  | swapped =>
      rw [hclass] at hcall
      exact hunmapped (by simp [hclass]) (Except.ok.inj hcall).symm

end GeexOS.MemorySpace
