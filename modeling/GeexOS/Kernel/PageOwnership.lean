import GeexOS.Kernel.LazyRegionRuns

/-!
# Owned pages and their frames

Pages that belong to some region have frames of their own.  The frames in use are those of
the owned pages, the frames that were in use from the start, and possibly frame 0, which
counts as no frame when a page is unmapped.
-/

namespace GeexOS.MemorySpace

open GeexOS.Words
open GeexOS.Halting
open GeexOS.PhysicalAllocator
open GeexOS.PhysicalAllocator.BitfieldPhysicalMemoryAllocator
open GeexOS.Paging
open GeexOS.LazyRegion

variable {memory memory' : PagedMemory} {reserved owned : Set ℕ}
variable {page flags : ℕ}

/-- One turn of the loop of `SetFlags`. -/
def remapPage (flags i : ℕ) (memory : PagedMemory) : Outcome PagedMemory :=
  if memory.paging.isPresent i then do
    let paging ← memory.paging.mapAddress i (memory.paging.getPhysicalAddress i)
      (flags &&& allocFlagWritable != 0) (flags &&& allocFlagUsermode != 0)
    .ok { memory with paging := paging }
  else .ok memory

/-- One turn of the loop in the constructor of `KernelProgramMemoryRegion`. -/
def markPage (curAddress : ℕ) (memory : PagedMemory) : Outcome PagedMemory := do
  let allocator ← memory.allocator.markAsUsed (memory.paging.getPhysicalAddress curAddress)
  .ok { memory with allocator := allocator }

/-- The entry lets through what the flags allow. -/
def Carries (flags : ℕ) (entry : X86Page) : Prop :=
  entry.rw = (flags &&& allocFlagWritable != 0) ∧
    entry.user = (flags &&& allocFlagUsermode != 0)

structure Backed (reserved owned : Set ℕ) (memory : PagedMemory) : Prop where
  paging : Paging.WellFormed memory.paging
  allocator : memory.allocator.WellFormed
  nFrames_lt : memory.allocator.nFrames < 2 ^ 20
  owned_lt : ∀ page ∈ owned, page < 2 ^ 20
  reserved_used : ∀ frame ∈ reserved, memory.allocator.Used frame
  used : ∀ page ∈ owned, ∀ frame < memory.allocator.nFrames,
    frameOf memory page = some frame → memory.allocator.Used frame ∧ frame ∉ reserved
  distinct : ∀ left ∈ owned, ∀ right ∈ owned, ∀ frame < memory.allocator.nFrames,
    frameOf memory left = some frame → frameOf memory right = some frame → left = right
  accounted : ∀ frame, memory.allocator.Used frame →
    frame ∈ reserved ∨ frame = 0 ∨ ∃ page ∈ owned, frameOf memory page = some frame

/-! ## What one turn of a loop does -/

theorem pageOf_page (page : ℕ) : pageOf (page * pageSize) = page :=
  Nat.mul_div_cancel page (by decide)

theorem frameOf_eq_map (memory : PagedMemory) (page : ℕ) :
    frameOf memory page = (entryOf memory.paging page).map fun entry => entry.frame.toNat := rfl

/-- The frame of the mapped address. -/
theorem frame_of_frameAddress {entry : X86Page} {frame : ℕ} (hframe : frame < 2 ^ 20)
    (haddress : entry.frameAddress = frame * pageSize &&& 0xFFFFF000) :
    entry.frame.toNat = frame := by
  have hbytes : frame * pageSize < 2 ^ 32 := page_lt hframe
  have hmask : (0xFFFFF000 : ℕ) = 2 ^ 32 - 2 ^ 12 := by decide
  apply frame_eq_of_frameAddress
  rw [haddress, hmask, land_mask hbytes (by norm_num)]
  exact congrArg (· * pageSize) (Nat.mul_div_cancel frame (by decide))

/-- A page gets a frame that nobody had. -/
structure MapsFresh (flags page frame : ℕ) (before after : PagedMemory) : Prop where
  frame_lt : frame < before.allocator.nFrames
  not_used : ¬ before.allocator.Used frame
  marked : Marked before.allocator after.allocator frame
  paging : Paging.WellFormed after.paging
  entry : ∃ entry, entry.frame.toNat = frame ∧ Carries flags entry ∧
    ∀ other < 2 ^ 20, entryOf after.paging other =
      if other = page then some entry else entryOf before.paging other

theorem Backed.mapsFresh (hmemory : Backed reserved owned memory) (hpage : page < 2 ^ 20)
    {region : VirtualMemoryRegion}
    (hcall : region.mapFreshPage (page * pageSize) memory = .ok memory') :
    ∃ frame, MapsFresh region.flags page frame memory memory' := by
  obtain ⟨⟨address, allocator⟩, hallocate, hrest⟩ := bind_eq_ok.mp hcall
  obtain ⟨frame, hframe, haddress, hclear, hmarked⟩ :=
    allocateFrame_eq_ok hmemory.allocator hallocate
  have hframeLt : frame < 2 ^ 20 := hframe.trans hmemory.nFrames_lt
  obtain ⟨paging, entry, hmap, hpaging, hentry, hrw, huser, hentries⟩ :=
    hmemory.paging.mapAddress (page_lt hpage) address
      (region.flags &&& allocFlagWritable != 0) (region.flags &&& allocFlagUsermode != 0)
  simp only [hmap, ok_bind, Except.ok.injEq] at hrest
  subst hrest
  rw [haddress, u32_of_lt (page_lt hframeLt)] at hentry
  rw [pageOf_page] at hentries
  exact ⟨frame, hframe, hclear, hmarked, hpaging, entry,
    frame_of_frameAddress hframeLt hentry, ⟨hrw, huser⟩, hentries⟩

/-- Only frames that are managed can be given back. -/
theorem deallocateFrame_lt {allocator after : BitfieldPhysicalMemoryAllocator} {physAddr : ℕ}
    (hallocator : allocator.WellFormed)
    (hdeallocate : allocator.deallocateFrame physAddr = .ok after) :
    physAddr / pageSize < allocator.nFrames := by
  obtain ⟨frames, hclear, -⟩ := bind_eq_ok.mp hdeallocate
  exact (DataStructures.Bitfield.clearBit_eq_ok hclear).1.trans_eq hallocator

/-- A page loses its frame, or it has none but frame 0. -/
structure UnmapsPage (page : ℕ) (before after : PagedMemory) : Prop where
  paging : Paging.WellFormed after.paging
  allocator : after.allocator.WellFormed
  nFrames_eq : after.allocator.nFrames = before.allocator.nFrames
  entries : ∀ other < 2 ^ 20, entryOf after.paging other =
    if other = page ∧ frameOf before page ≠ some 0 then none else entryOf before.paging other
  used_iff : ∀ frame, after.allocator.Used frame ↔
    before.allocator.Used frame ∧ ¬ (frameOf before page = some frame ∧ frame ≠ 0)
  frame_lt : ∀ frame, frameOf before page = some frame → frame ≠ 0 →
    frame < before.allocator.nFrames

theorem Backed.unmapsPage (hmemory : Backed reserved owned memory) (hpage : page < 2 ^ 20)
    (hcall : VirtualMemoryRegion.unmapPage (page * pageSize) memory = .ok memory') :
    UnmapsPage page memory memory' := by
  have hphysical := getPhysicalAddress_page memory page
  rw [VirtualMemoryRegion.unmapPage] at hcall
  by_cases hzero : frameOf memory page = none ∨ frameOf memory page = some 0
  · have hunmapped : memory.paging.getPhysicalAddress (page * pageSize) = 0 := by
      rcases hzero with hfree | hzero
      · rw [hphysical, hfree]
      · rw [hphysical, hzero]
        exact Nat.zero_mul pageSize
    simp only [hunmapped, ne_eq, not_true_eq_false, if_false, Except.ok.injEq] at hcall
    subst hcall
    have hnone : ∀ frame, ¬ (frameOf memory page = some frame ∧ frame ≠ 0) := by
      rintro frame ⟨hmapped, hnonzero⟩
      rcases hzero with hfree | hzero
      · rw [hfree] at hmapped
        cases hmapped
      · rw [hzero, Option.some.injEq] at hmapped
        exact hnonzero hmapped.symm
    refine ⟨hmemory.paging, hmemory.allocator, rfl, fun other hother => ?_,
      fun frame => (and_iff_left (hnone frame)).symm,
      fun frame hmapped hnonzero => absurd ⟨hmapped, hnonzero⟩ (hnone frame)⟩
    split
    · rename_i hboth
      rw [hboth.1, ← Option.map_eq_none_iff, ← frameOf_eq_map]
      exact hzero.resolve_right hboth.2
    · rfl
  · rw [not_or] at hzero
    obtain ⟨frame, hframe⟩ := Option.ne_none_iff_exists'.mp hzero.1
    have hnonzero : frame ≠ 0 := fun heq => hzero.2 (heq ▸ hframe)
    have hphys : memory.paging.getPhysicalAddress (page * pageSize) = frame * pageSize := by
      rw [hphysical, hframe]
    have hmapped : frame * pageSize ≠ 0 := Nat.mul_ne_zero hnonzero (by decide)
    obtain ⟨paging, hunmap, hpaging, hentries⟩ := hmemory.paging.unmapAddress (page_lt hpage)
    simp only [hphys, ne_eq, hmapped, not_false_eq_true, if_true, hunmap, ok_bind] at hcall
    obtain ⟨allocator, hdeallocate, hrest⟩ := bind_eq_ok.mp hcall
    rw [Except.ok.injEq] at hrest
    subst hrest
    obtain ⟨hcount, hallocator, husedIff⟩ :=
      deallocateFrame_eq_ok hmemory.allocator hdeallocate
    have hframeLt := deallocateFrame_lt hmemory.allocator hdeallocate
    rw [Nat.mul_div_cancel frame (by decide)] at hframeLt
    refine ⟨hpaging, hallocator, hcount, fun other hother => ?_, fun other => ?_,
      fun other hmapped _ => ?_⟩
    · rw [hentries other hother, pageOf_page]
      exact if_congr (and_iff_left hzero.2).symm rfl rfl
    · rw [husedIff, Nat.mul_div_cancel frame (by decide), and_comm, hframe, Option.some.injEq]
      refine and_congr_right fun _ => not_congr ⟨?_, fun hboth => hboth.1.symm⟩
      rintro rfl
      exact ⟨rfl, hnonzero⟩
    · rw [hframe, Option.some.injEq] at hmapped
      exact hmapped ▸ hframeLt

/-- A mapped page gets other flags. -/
structure Remaps (flags page : ℕ) (before after : PagedMemory) : Prop where
  paging : Paging.WellFormed after.paging
  allocator_eq : after.allocator = before.allocator
  frameOf_eq : ∀ other < 2 ^ 20, frameOf after other = frameOf before other
  entries : ∀ other < 2 ^ 20, other ≠ page →
    entryOf after.paging other = entryOf before.paging other
  carries : ∀ entry, entryOf after.paging page = some entry → Carries flags entry

theorem Backed.remaps (hmemory : Backed reserved owned memory) (hpage : page < 2 ^ 20)
    (hcall : remapPage flags (page * pageSize) memory = .ok memory') :
    Remaps flags page memory memory' := by
  have hpresent := isPresent_page hmemory.paging hpage
  rw [remapPage] at hcall
  cases hframe : frameOf memory page with
  | none =>
      rw [hframe, Option.isSome_none] at hpresent
      simp only [hpresent, Bool.false_eq_true, if_false, Except.ok.injEq] at hcall
      subst hcall
      rw [frameOf_eq_map, Option.map_eq_none_iff] at hframe
      refine ⟨hmemory.paging, rfl, fun _ _ => rfl, fun _ _ _ => rfl, fun entry hentry => ?_⟩
      rw [hframe] at hentry
      cases hentry
  | some frame =>
      rw [hframe, Option.isSome_some] at hpresent
      have hphysical := getPhysicalAddress_page memory page
      rw [hframe] at hphysical
      obtain ⟨paging, entry, hmap, hpaging, hentry, hrw, huser, hentries⟩ :=
        hmemory.paging.mapAddress (page_lt hpage) (frame * pageSize)
          (flags &&& allocFlagWritable != 0) (flags &&& allocFlagUsermode != 0)
      simp only [hpresent, if_true, hphysical, hmap, ok_bind, Except.ok.injEq] at hcall
      subst hcall
      rw [pageOf_page] at hentries
      have hframeLt : frame < 2 ^ 20 := by
        rw [frameOf_eq_map, Option.map_eq_some_iff] at hframe
        obtain ⟨old, _, rfl⟩ := hframe
        exact old.frame.isLt
      have hsame := frame_of_frameAddress hframeLt hentry
      refine ⟨hpaging, rfl, fun other hother => ?_, fun other hother hne => ?_,
        fun written hwritten => ?_⟩
      · rw [frameOf_eq_map, hentries other hother]
        split
        · rename_i heq
          rw [heq, hframe, Option.map_some, hsame]
        · rfl
      · rw [hentries other hother, if_neg hne]
      · rw [hentries page hpage, if_pos rfl, Option.some.injEq] at hwritten
        exact hwritten ▸ ⟨hrw, huser⟩

/-! ## Every turn keeps the frames apart -/

theorem MapsFresh.frameOf_eq {frame : ℕ} (hmaps : MapsFresh flags page frame memory memory')
    {other : ℕ} (hother : other < 2 ^ 20) :
    frameOf memory' other = if other = page then some frame else frameOf memory other := by
  obtain ⟨entry, hframe, -, hentries⟩ := hmaps.entry
  rw [frameOf_eq_map, hentries other hother]
  split
  · rw [Option.map_some, hframe]
  · rfl

theorem Backed.mapFreshPage (hmemory : Backed reserved owned memory) (hpage : page ∈ owned)
    (habsent : frameOf memory page = none) {frame : ℕ}
    (hmaps : MapsFresh flags page frame memory memory') : Backed reserved owned memory' where
  paging := hmaps.paging
  allocator := hmaps.marked.wellFormed
  nFrames_lt := hmaps.marked.nFrames_eq ▸ hmemory.nFrames_lt
  owned_lt := hmemory.owned_lt
  reserved_used := fun frame hframe =>
    (hmaps.marked.used_iff frame).mpr (Or.inr (hmemory.reserved_used frame hframe))
  used := fun other hother otherFrame hbound hmapped => by
    rw [hmaps.marked.nFrames_eq] at hbound
    rw [hmaps.frameOf_eq (hmemory.owned_lt other hother)] at hmapped
    rw [hmaps.marked.used_iff]
    split at hmapped
    · rw [Option.some.injEq] at hmapped
      subst hmapped
      exact ⟨Or.inl rfl, fun hreserved => hmaps.not_used (hmemory.reserved_used _ hreserved)⟩
    · have hused := hmemory.used other hother otherFrame hbound hmapped
      exact ⟨Or.inr hused.1, hused.2⟩
  distinct := fun left hleft right hright otherFrame hbound hfirst hsecond => by
    rw [hmaps.marked.nFrames_eq] at hbound
    rw [hmaps.frameOf_eq (hmemory.owned_lt left hleft)] at hfirst
    rw [hmaps.frameOf_eq (hmemory.owned_lt right hright)] at hsecond
    split at hfirst <;> split at hsecond
    · rename_i hleftEq hrightEq
      rw [hleftEq, hrightEq]
    · -- the frame was in use before, so it was not handed out
      rw [Option.some.injEq] at hfirst
      subst hfirst
      exact absurd (hmemory.used right hright _ hbound hsecond).1 hmaps.not_used
    · rw [Option.some.injEq] at hsecond
      subst hsecond
      exact absurd (hmemory.used left hleft _ hbound hfirst).1 hmaps.not_used
    · exact hmemory.distinct left hleft right hright otherFrame hbound hfirst hsecond
  accounted := fun other hused => by
    rcases (hmaps.marked.used_iff other).mp hused with rfl | hbefore
    · refine Or.inr (Or.inr ⟨page, hpage, ?_⟩)
      rw [hmaps.frameOf_eq (hmemory.owned_lt page hpage), if_pos rfl]
    · refine (hmemory.accounted other hbefore).imp_right (Or.imp_right ?_)
      rintro ⟨holder, hholder, hmapped⟩
      have hne : holder ≠ page := by
        rintro rfl
        rw [habsent] at hmapped
        cases hmapped
      exact ⟨holder, hholder, by rwa [hmaps.frameOf_eq (hmemory.owned_lt holder hholder),
        if_neg hne]⟩

theorem UnmapsPage.frameOf_eq (hunmaps : UnmapsPage page memory memory') {other : ℕ}
    (hother : other < 2 ^ 20) :
    frameOf memory' other =
      if other = page ∧ frameOf memory page ≠ some 0 then none else frameOf memory other := by
  rw [frameOf_eq_map, hunmaps.entries other hother]
  split <;> rfl

theorem Backed.unmapPage (hmemory : Backed reserved owned memory) (hpage : page ∈ owned)
    (hunmaps : UnmapsPage page memory memory') : Backed reserved owned memory' := by
  have hkept : ∀ other ∈ owned, ∀ frame, frameOf memory' other = some frame →
      frameOf memory other = some frame ∧
        ¬ (frameOf memory page = some frame ∧ frame ≠ 0) := by
    intro other hother frame hmapped
    rw [hunmaps.frameOf_eq (hmemory.owned_lt other hother)] at hmapped
    split at hmapped
    · cases hmapped
    · rename_i hout
      refine ⟨hmapped, fun hboth => hout ?_⟩
      have hsame := hmemory.distinct other hother page hpage frame
        (hunmaps.frame_lt frame hboth.1 hboth.2) hmapped hboth.1
      rw [hboth.1, Ne, Option.some.injEq]
      exact ⟨hsame, hboth.2⟩
  refine ⟨hunmaps.paging, hunmaps.allocator, hunmaps.nFrames_eq ▸ hmemory.nFrames_lt,
    hmemory.owned_lt, ?_, ?_, ?_, ?_⟩
  · intro frame hframe
    refine (hunmaps.used_iff frame).mpr ⟨hmemory.reserved_used frame hframe, fun hboth => ?_⟩
    exact (hmemory.used page hpage frame (hunmaps.frame_lt frame hboth.1 hboth.2) hboth.1).2
      hframe
  · intro other hother frame hbound hmapped
    obtain ⟨hbefore, hout⟩ := hkept other hother frame hmapped
    obtain ⟨hused, hapart⟩ :=
      hmemory.used other hother frame (hunmaps.nFrames_eq ▸ hbound) hbefore
    exact ⟨(hunmaps.used_iff frame).mpr ⟨hused, hout⟩, hapart⟩
  · exact fun left hleft right hright frame hbound hfirst hsecond =>
      hmemory.distinct left hleft right hright frame (hunmaps.nFrames_eq ▸ hbound)
        (hkept left hleft frame hfirst).1 (hkept right hright frame hsecond).1
  · intro frame hused
    obtain ⟨hbefore, hout⟩ := (hunmaps.used_iff frame).mp hused
    by_cases hzero : frame = 0
    · exact Or.inr (Or.inl hzero)
    refine (hmemory.accounted frame hbefore).imp_right (Or.imp_right ?_)
    rintro ⟨holder, hholder, hmapped⟩
    have hne : holder ≠ page := by
      rintro rfl
      exact hout ⟨hmapped, hzero⟩
    exact ⟨holder, hholder, by rwa [hunmaps.frameOf_eq (hmemory.owned_lt holder hholder),
      if_neg (fun hboth => hne hboth.1)]⟩

theorem Backed.remapPage (hmemory : Backed reserved owned memory)
    (hremaps : Remaps flags page memory memory') : Backed reserved owned memory' := by
  have hframes : ∀ other ∈ owned, frameOf memory' other = frameOf memory other :=
    fun other hother => hremaps.frameOf_eq other (hmemory.owned_lt other hother)
  have hsame := hremaps.allocator_eq
  refine ⟨hremaps.paging, hsame ▸ hmemory.allocator, hsame ▸ hmemory.nFrames_lt,
    hmemory.owned_lt, hsame ▸ hmemory.reserved_used, ?_, ?_, ?_⟩
  · intro other hother frame hbound hmapped
    rw [hframes other hother] at hmapped
    rw [hsame] at hbound ⊢
    exact hmemory.used other hother frame hbound hmapped
  · intro left hleft right hright frame hbound hfirst hsecond
    rw [hframes left hleft] at hfirst
    rw [hframes right hright] at hsecond
    exact hmemory.distinct left hleft right hright frame (hsame ▸ hbound) hfirst hsecond
  · intro frame hused
    refine (hmemory.accounted frame (hsame ▸ hused)).imp_right (Or.imp_right ?_)
    rintro ⟨holder, hholder, hmapped⟩
    exact ⟨holder, hholder, (hframes holder hholder).trans hmapped⟩

/-! ## Pages that come and go -/

theorem Backed.union_absent (hmemory : Backed reserved owned memory) {pages : Set ℕ}
    (hlt : ∀ page ∈ pages, page < 2 ^ 20)
    (habsent : ∀ page ∈ pages, frameOf memory page = none) :
    Backed reserved (owned ∪ pages) memory := by
  have hmapped : ∀ page ∈ owned ∪ pages, ∀ frame, frameOf memory page = some frame →
      page ∈ owned := by
    rintro page (howned | hnew) frame hframe
    · exact howned
    · rw [habsent page hnew] at hframe
      cases hframe
  exact {
    paging := hmemory.paging
    allocator := hmemory.allocator
    nFrames_lt := hmemory.nFrames_lt
    owned_lt := fun page hpage => hpage.elim (hmemory.owned_lt page) (hlt page)
    reserved_used := hmemory.reserved_used
    used := fun page hpage frame hbound hframe =>
      hmemory.used page (hmapped page hpage frame hframe) frame hbound hframe
    distinct := fun left hleft right hright frame hbound hfirst hsecond =>
      hmemory.distinct left (hmapped left hleft frame hfirst) right
        (hmapped right hright frame hsecond) frame hbound hfirst hsecond
    accounted := fun frame hused =>
      (hmemory.accounted frame hused).imp_right (Or.imp_right fun ⟨page, hpage, hframe⟩ =>
        ⟨page, Or.inl hpage, hframe⟩) }

theorem Backed.subset (hmemory : Backed reserved owned memory) {kept : Set ℕ}
    (hsubset : kept ⊆ owned)
    (hreleased : ∀ page ∈ owned, page ∉ kept →
      frameOf memory page = none ∨ frameOf memory page = some 0) :
    Backed reserved kept memory where
  paging := hmemory.paging
  allocator := hmemory.allocator
  nFrames_lt := hmemory.nFrames_lt
  owned_lt := fun page hpage => hmemory.owned_lt page (hsubset hpage)
  reserved_used := hmemory.reserved_used
  used := fun page hpage => hmemory.used page (hsubset hpage)
  distinct := fun left hleft right hright =>
    hmemory.distinct left (hsubset hleft) right (hsubset hright)
  accounted := fun frame hused => by
    rcases hmemory.accounted frame hused with hreserved | hzero | ⟨page, hpage, hframe⟩
    · exact Or.inl hreserved
    · exact Or.inr (Or.inl hzero)
    · by_cases hkept : page ∈ kept
      · exact Or.inr (Or.inr ⟨page, hkept, hframe⟩)
      · rcases hreleased page hpage hkept with hfree | hzero
        · rw [hfree] at hframe
          cases hframe
        · rw [hzero, Option.some.injEq] at hframe
          exact Or.inr (Or.inl hframe.symm)

/-- A page that is mapped already is taken over with its frame; a page that is not makes
frame 0 used. -/
theorem Backed.markPage (hmemory : Backed reserved owned memory) (hpage : page < 2 ^ 20)
    (hcall : markPage (page * pageSize) memory = .ok memory') :
    memory'.paging = memory.paging ∧ Backed reserved (insert page owned) memory' := by
  obtain ⟨allocator, hmark, hrest⟩ := bind_eq_ok.mp hcall
  rw [Except.ok.injEq] at hrest
  subst hrest
  refine ⟨rfl, ?_⟩
  have hphysical := getPhysicalAddress_page memory page
  have hframes : ∀ other, frameOf { memory with allocator := allocator } other =
      frameOf memory other := fun _ => rfl
  have howned : ∀ other ∈ insert page owned, other < 2 ^ 20 := by
    rintro other (rfl | hother)
    · exact hpage
    · exact hmemory.owned_lt other hother
  -- the frame of the page is the one that is marked
  have hindex : ∀ frame, frameOf memory page = some frame →
      memory.paging.getPhysicalAddress (page * pageSize) / pageSize = frame := by
    intro frame hframe
    rw [hphysical, hframe]
    exact Nat.mul_div_cancel frame (by decide)
  rcases markAsUsed_eq_ok hmemory.allocator hmark with ⟨-, hclear, hmarked⟩ | ⟨habove, rfl⟩
  · have hfresh : ∀ other ∈ owned, ∀ frame < memory.allocator.nFrames,
        frameOf memory page = some frame → frameOf memory other ≠ some frame := by
      intro other hother frame hbound hframe hsame
      rw [hindex frame hframe] at hclear
      exact hclear (hmemory.used other hother frame hbound hsame).1
    refine ⟨hmemory.paging, hmarked.wellFormed, hmarked.nFrames_eq ▸ hmemory.nFrames_lt,
      howned, fun frame hframe => ?_, ?_, ?_, fun frame hused => ?_⟩
    · exact (hmarked.used_iff frame).mpr (Or.inr (hmemory.reserved_used frame hframe))
    · rintro other (rfl | hother) frame hbound hframe
      · rw [← hindex frame hframe]
        exact ⟨(hmarked.used_iff _).mpr (Or.inl rfl),
          fun hreserved => hclear (hmemory.reserved_used _ hreserved)⟩
      · have hused := hmemory.used other hother frame (hmarked.nFrames_eq ▸ hbound) hframe
        exact ⟨(hmarked.used_iff frame).mpr (Or.inr hused.1), hused.2⟩
    · rintro left (rfl | hleft) right (rfl | hright) frame hbound hfirst hsecond
      · rfl
      · exact absurd hsecond (hfresh right hright frame (hmarked.nFrames_eq ▸ hbound) hfirst)
      · exact absurd hfirst (hfresh left hleft frame (hmarked.nFrames_eq ▸ hbound) hsecond)
      · exact hmemory.distinct left hleft right hright frame (hmarked.nFrames_eq ▸ hbound)
          hfirst hsecond
    · rcases (hmarked.used_iff frame).mp hused with rfl | hbefore
      · cases hframe : frameOf memory page with
        | none =>
            rw [hphysical, hframe]
            exact Or.inr (Or.inl rfl)
        | some frame =>
            rw [hindex frame hframe]
            exact Or.inr (Or.inr ⟨page, Set.mem_insert _ _, hframe⟩)
      · exact (hmemory.accounted frame hbefore).imp_right
          (Or.imp_right fun ⟨other, hother, hframe⟩ => ⟨other, Set.mem_insert_of_mem _ hother,
            hframe⟩)
  · have hmanaged : ∀ frame < memory.allocator.nFrames, frameOf memory page ≠ some frame := by
      intro frame hbound hframe
      rw [hindex frame hframe] at habove
      omega
    refine ⟨hmemory.paging, hmemory.allocator, hmemory.nFrames_lt, howned,
      hmemory.reserved_used, ?_, ?_, fun frame hused => ?_⟩
    · rintro other (rfl | hother) frame hbound hframe
      · exact absurd hframe (hmanaged frame hbound)
      · exact hmemory.used other hother frame hbound hframe
    · rintro left (rfl | hleft) right (rfl | hright) frame hbound hfirst hsecond
      · rfl
      · exact absurd hfirst (hmanaged frame hbound)
      · exact absurd hsecond (hmanaged frame hbound)
      · exact hmemory.distinct left hleft right hright frame hbound hfirst hsecond
    · exact (hmemory.accounted frame hused).imp_right
        (Or.imp_right fun ⟨other, hother, hframe⟩ => ⟨other, Set.mem_insert_of_mem _ hother,
          hframe⟩)

/-! ## Loops over pages -/

/-- What a turn carries from its page to the next one holds behind the last page. -/
theorem pageLoop_rule {body : ℕ → PagedMemory → Outcome PagedMemory}
    (carried : ℕ → PagedMemory → Prop) {first last fuel : ℕ} (hlast : last < 2 ^ 20)
    (hstep : ∀ page before after, first ≤ page → page < last → carried page before →
      body (page * pageSize) before = .ok after → carried (page + 1) after)
    (hfirst : carried first memory)
    (hloop : VirtualMemoryRegion.pageLoop body (last * pageSize) fuel (first * pageSize) memory =
      .ok memory') : carried (max first last) memory' := by
  induction fuel generalizing first memory with
  | zero => cases hloop
  | succ fuel ih =>
      rw [VirtualMemoryRegion.pageLoop] at hloop
      split at hloop
      · rename_i hmore
        rw [mul_pageSize_lt_iff] at hmore
        obtain ⟨middle, hturn, hrest⟩ := bind_eq_ok.mp hloop
        rw [u32_next hlast hmore] at hrest
        have hbehind := ih (fun page before after hlow => hstep page before after (by omega))
          (hstep first memory middle le_rfl hmore hfirst hturn) hrest
        rw [Nat.max_eq_right hmore.le]
        rwa [Nat.max_eq_right hmore] at hbehind
      · rename_i hdone
        rw [mul_pageSize_lt_iff, Nat.not_lt] at hdone
        rw [Except.ok.injEq] at hloop
        rw [Nat.max_eq_left hdone]
        exact hloop ▸ hfirst

end GeexOS.MemorySpace
