import GeexOS.Loader.ElfImage

/-!
# What loading writes

The size of the physical range is computed from the lengths in memory, the
reads from the lengths in the file.  The range holds everything that is written
exactly if no segment has more bytes in the file than the image has room for.
-/

namespace GeexOS.Elf

open GeexOS.Words
open GeexOS.Halting
open GeexOS.ByteMemory
open GeexOS.PhysicalMemory
open GeexOS.PageTables

variable {file : File} {phdrs front rest : List Elf32Phdr} {phdr : Elf32Phdr}
variable {state after middle : LoaderState} {physicalBase originalVirtualBase virtualBase : ℕ}

/-! ## Writes -/

/-- A range of bytes that is written, by its address and its length. -/
abbrev Write := ℕ × ℕ

/-- Every byte of the write lies in the range. -/
def Write.Inside (write : Write) (base size : ℕ) : Prop :=
  0 < write.2 → base ≤ write.1 ∧ write.1 + write.2 ≤ base + size

/-- The write changes the byte at the position. -/
def Write.Covers (write : Write) (position : ℕ) : Prop :=
  write.1 ≤ position ∧ position < write.1 + write.2

/-- The segment was read in full. -/
def File.readsAll (file : File) (phdr : Elf32Phdr) : Prop :=
  phdr.filesz > 0 → file.delivered phdr = phdr.filesz

/-- The writes of `read` and `memset` for one LOAD header. -/
def segmentWrites (file : File) (physicalBase originalVirtualBase : ℕ) (phdr : Elf32Phdr) :
    List Write :=
  let targetAddress := u32 (physicalBase + sub32 phdr.vaddr originalVirtualBase)
  let reading : List Write :=
    if phdr.filesz > 0 then [(targetAddress, file.delivered phdr)] else []
  let clearing : List Write :=
    if phdr.filesz > 0 ∧ file.delivered phdr ≠ phdr.filesz then []
    else if phdr.memsz > phdr.filesz then
      [(u32 (targetAddress + phdr.filesz), phdr.memsz - phdr.filesz)]
    else []
  reading ++ clearing

/-- The writes of the loop, up to where it ends. -/
def loadWrites (file : File) (physicalBase originalVirtualBase virtualBase : ℕ) :
    List Elf32Phdr → LoaderState → List Write
  | [], _ => []
  | phdr :: rest, state =>
      if phdr.type = ptLoad then
        segmentWrites file physicalBase originalVirtualBase phdr ++
          match loadSegment file physicalBase originalVirtualBase virtualBase phdr state with
          | .ok (true, state) =>
              loadWrites file physicalBase originalVirtualBase virtualBase rest state
          | _ => []
      else loadWrites file physicalBase originalVirtualBase virtualBase rest state

/-- What `elf_loadElf32File` has found when it comes to the loop. -/
structure LoadPlan where
  physicalBase : ℕ
  virtualBase : ℕ
  originalVirtualBase : ℕ
  totalImageSize : ℕ
  state : LoaderState

/-- The places for the image; none if the function ends before the loop. -/
def loadPlan (memType : MemoryType) (phdrs : List Elf32Phdr) (state : LoaderState) :
    Outcome (Option LoadPlan) :=
  let (totalImageSize, minAddr) := elf32GetImageSize phdrs
  if totalImageSize = 0 then .ok none
  else do
    let base ← findVirtualBase state minAddr totalImageSize
    match base with
    | none => .ok none
    | some virtualBase => do
        let (physicalBase, memory) ← memoryAllocate state.memory totalImageSize memType
        if physicalBase = 0 then .ok none
        else
          .ok (some ⟨physicalBase, virtualBase, minAddr, totalImageSize,
            { state with memory := memory }⟩)

def LoadPlan.writes (plan : LoadPlan) (file : File) (phdrs : List Elf32Phdr) : List Write :=
  loadWrites file plan.physicalBase plan.originalVirtualBase plan.virtualBase phdrs plan.state

/-- The function goes through the plan. -/
theorem elfLoadElf32File_of_plan {memType : MemoryType} {context : LoaderContext}
    {plan : LoadPlan} (hplan : loadPlan memType context.phdrs state = .ok (some plan)) :
    ∃ image : LoadedImage, image.physicalBase = plan.physicalBase ∧
      image.virtualBase = plan.virtualBase ∧ image.originalBase = plan.originalVirtualBase ∧
      image.sizeOfImage = plan.totalImageSize ∧
      elfLoadElf32File file memType context state = (do
        let (success, state) ← loadSegments file plan.physicalBase plan.originalVirtualBase
          plan.virtualBase context.phdrs plan.state
        .ok (if success then some image else none, state)) := by
  obtain ⟨totalImageSize, minAddr, hsize⟩ : ∃ totalImageSize minAddr,
      elf32GetImageSize context.phdrs = (totalImageSize, minAddr) := ⟨_, _, rfl⟩
  simp only [loadPlan, hsize] at hplan
  split at hplan
  · cases hplan
  rename_i hne
  obtain ⟨base, hbase, hplan⟩ := bind_eq_ok.mp hplan
  cases base with
  | none => cases hplan
  | some virtualBase =>
      obtain ⟨⟨physicalBase, memory⟩, hallocate, hplan⟩ := bind_eq_ok.mp hplan
      simp only at hplan
      split at hplan
      · cases hplan
      rename_i hnonzero
      obtain rfl := Option.some.inj (Except.ok.inj hplan)
      refine ⟨⟨physicalBase, virtualBase, minAddr,
        u32 (sub32 context.entry minAddr + virtualBase), totalImageSize⟩, rfl, rfl, rfl, rfl, ?_⟩
      simp only [elfLoadElf32File, hsize, if_neg hne, hbase, ok_bind, hallocate,
        if_neg hnonzero]

/-! ## Where the writes go -/

/-- The loop comes to a LOAD header: those before it were read and mapped. -/
def LoadPlan.Reaches (plan : LoadPlan) (file : File) (phdrs : List Elf32Phdr)
    (phdr : Elf32Phdr) : Prop :=
  phdr.type = ptLoad ∧ ∃ front rest middle, phdrs = front ++ phdr :: rest ∧
    loadSegments file plan.physicalBase plan.originalVirtualBase plan.virtualBase front
      plan.state = .ok (true, middle)

/-- The bytes the file has for the segment, and the whole segment if the rest of
it is cleared, end in the image. -/
def Elf32Phdr.Fits (phdr : Elf32Phdr) (file : File) (originalVirtualBase totalImageSize : ℕ) :
    Prop :=
  (0 < file.delivered phdr →
      phdr.vaddr + file.delivered phdr ≤ originalVirtualBase + totalImageSize) ∧
    (file.readsAll phdr → phdr.filesz < phdr.memsz →
      phdr.vaddr + phdr.memsz ≤ originalVirtualBase + totalImageSize)

/-- The fields of a header are 32-bit words. -/
structure Elf32Phdr.IsWords (phdr : Elf32Phdr) : Prop where
  vaddr_lt : phdr.vaddr < 2 ^ 32
  filesz_lt : phdr.filesz < 2 ^ 32
  memsz_lt : phdr.memsz < 2 ^ 32

variable {size : ℕ}

theorem File.delivered_le (file : File) (phdr : Elf32Phdr) : file.delivered phdr ≤ phdr.filesz :=
  Nat.min_le_left _ _

/-- The writes for one segment stay in the range exactly if it fits. -/
theorem segmentWrites_inside_iff (hwords : phdr.IsWords) (hlow : originalVirtualBase ≤ phdr.vaddr)
    (hend : physicalBase + size < 2 ^ 32) :
    (∀ write ∈ segmentWrites file physicalBase originalVirtualBase phdr,
        write.Inside physicalBase size) ↔ phdr.Fits file originalVirtualBase size := by
  have hvaddr := hwords.vaddr_lt
  have hfilesz := hwords.filesz_lt
  have hmemsz := hwords.memsz_lt
  have hdelivered := file.delivered_le phdr
  have hoffset : sub32 phdr.vaddr originalVirtualBase = phdr.vaddr - originalVirtualBase :=
    sub32_of_le hvaddr hlow
  -- a write at some distance behind the base
  have hinside : ∀ distance length, distance < 2 ^ 32 →
      (Write.Inside (u32 (physicalBase + distance), length) physicalBase size ↔
        (0 < length → distance + length ≤ size)) := by
    intro distance length hdistance
    refine forall_congr' fun hpos => ?_
    simp only [u32]
    omega
  have hreading := hinside (phdr.vaddr - originalVirtualBase) (file.delivered phdr) (by omega)
  have hclearing : phdr.vaddr - originalVirtualBase + phdr.filesz < 2 ^ 32 →
      (Write.Inside (u32 (u32 (physicalBase + (phdr.vaddr - originalVirtualBase)) + phdr.filesz),
          phdr.memsz - phdr.filesz) physicalBase size ↔
        (phdr.filesz < phdr.memsz → phdr.vaddr - originalVirtualBase + phdr.memsz ≤ size)) := by
    intro hdistance
    have hsum : u32 (u32 (physicalBase + (phdr.vaddr - originalVirtualBase)) + phdr.filesz) =
        u32 (physicalBase + (phdr.vaddr - originalVirtualBase + phdr.filesz)) := by
      simp only [u32]
      omega
    rw [hsum, hinside _ _ hdistance]
    omega
  rw [segmentWrites, hoffset, Elf32Phdr.Fits, File.readsAll]
  rcases Nat.eq_zero_or_pos phdr.filesz with hzero | hpos
  · -- nothing is read
    have hnone : file.delivered phdr = 0 := by omega
    have hclear := hclearing (by omega)
    simp only [hzero, hnone, gt_iff_lt, lt_irrefl, if_false, false_and, List.nil_append,
      IsEmpty.forall_iff, true_and, forall_const] at hclear ⊢
    split
    · simp only [List.mem_singleton, forall_eq, hclear]
      omega
    · simp
      omega
  · by_cases hfull : file.delivered phdr = phdr.filesz
    · have hread : phdr.vaddr - originalVirtualBase + phdr.filesz ≤ size ↔
          phdr.vaddr + phdr.filesz ≤ originalVirtualBase + size := by omega
      rw [hfull] at hreading ⊢
      simp only [gt_iff_lt, hpos, if_true, ne_eq, not_true_eq_false, and_false, if_false,
        List.singleton_append, List.mem_cons, forall_eq_or_imp, hreading, forall_const, hread]
      refine and_congr_right fun hfits => ?_
      have hclear := hclearing (by omega)
      split
      · simp only [List.mem_singleton, forall_eq, hclear]
        omega
      · simp
        omega
    · -- a short read ends the loading
      simp only [gt_iff_lt, hpos, if_true, hfull, ne_eq, not_false_eq_true, and_self,
        List.append_nil, List.mem_singleton, forall_eq, hreading, forall_const, IsEmpty.forall_iff,
        and_true]
      omega

theorem boundsLoop_le {lowest highest minVaddr maxVaddr : ℕ}
    (hloop : boundsLoop phdrs lowest highest = (minVaddr, maxVaddr)) :
    minVaddr ≤ lowest ∧ ∀ phdr ∈ phdrs, phdr.type = ptLoad → minVaddr ≤ phdr.vaddr := by
  induction phdrs generalizing lowest highest with
  | nil => exact ⟨(Prod.mk.inj hloop).1.symm.le, by simp⟩
  | cons phdr rest ih =>
      rw [boundsLoop] at hloop
      by_cases hload : phdr.type = ptLoad
      · rw [if_pos hload] at hloop
        obtain ⟨hlow, hall⟩ := ih hloop
        have hboth : minVaddr ≤ phdr.vaddr ∧ minVaddr ≤ lowest := by
          split at hlow <;> omega
        refine ⟨hboth.2, fun other hmem hother => ?_⟩
        rcases List.mem_cons.mp hmem with rfl | hmem
        · exact hboth.1
        · exact hall other hmem hother
      · rw [if_neg hload] at hloop
        obtain ⟨hlow, hall⟩ := ih hloop
        refine ⟨hlow, fun other hmem hother => ?_⟩
        rcases List.mem_cons.mp hmem with rfl | hmem
        · exact absurd hother hload
        · exact hall other hmem hother

/-- The plan's range: whole pages below 4 GiB, and no segment starts before it. -/
structure LoadPlan.Sound (plan : LoadPlan) (phdrs : List Elf32Phdr) : Prop where
  end_lt : plan.physicalBase + plan.totalImageSize < 2 ^ 32
  low : ∀ phdr ∈ phdrs, phdr.type = ptLoad → plan.originalVirtualBase ≤ phdr.vaddr

theorem pageStart_dvd {address : ℕ} (haddress : address < 2 ^ 64) :
    4096 ∣ u32 (pageStart address) := by
  rw [pageStart_eq haddress]
  simp only [u32, archPagesize]
  omega

theorem elf32GetImageSize_spec {totalImageSize minAddr : ℕ}
    (hsize : elf32GetImageSize phdrs = (totalImageSize, minAddr)) :
    totalImageSize < 2 ^ 32 ∧ 4096 ∣ totalImageSize ∧
      ∀ phdr ∈ phdrs, phdr.type = ptLoad → minAddr ≤ phdr.vaddr := by
  obtain ⟨lowest, highest, hloop⟩ : ∃ lowest highest,
      boundsLoop phdrs 0xFFFFFFFF 0 = (lowest, highest) := ⟨_, _, rfl⟩
  obtain ⟨hbound, hall⟩ := boundsLoop_le hloop
  simp only [elf32GetImageSize, hloop] at hsize
  split at hsize
  · obtain ⟨rfl, rfl⟩ := Prod.mk.inj hsize
    exact ⟨Nat.two_pow_pos 32, dvd_zero _, hall⟩
  · obtain ⟨rfl, rfl⟩ := Prod.mk.inj hsize
    have hlow : 4096 ∣ u32 (pageStart lowest) := pageStart_dvd (by omega)
    have hhigh : 4096 ∣ u32 (pageEnd highest) :=
      pageStart_dvd (Nat.mod_lt _ (Nat.two_pow_pos 64))
    refine ⟨sub32_lt _ _, ?_, hall⟩
    simp only [sub32, u32] at hlow hhigh ⊢
    omega

theorem LoadPlan.sound {memType : MemoryType} {plan : LoadPlan}
    (hmemory : state.memory.WellFormed)
    (hplan : loadPlan memType phdrs state = .ok (some plan)) : plan.Sound phdrs := by
  obtain ⟨totalImageSize, minAddr, hsize⟩ : ∃ totalImageSize minAddr,
      elf32GetImageSize phdrs = (totalImageSize, minAddr) := ⟨_, _, rfl⟩
  obtain ⟨hlt, hdvd, hlow⟩ := elf32GetImageSize_spec hsize
  simp only [loadPlan, hsize] at hplan
  split at hplan
  · cases hplan
  obtain ⟨base, hbase, hplan⟩ := bind_eq_ok.mp hplan
  cases base with
  | none => cases hplan
  | some virtualBase =>
      obtain ⟨⟨physicalBase, memory⟩, hallocate, hplan⟩ := bind_eq_ok.mp hplan
      simp only at hplan
      split at hplan
      · cases hplan
      obtain rfl := Option.some.inj (Except.ok.inj hplan)
      obtain ⟨first, haddress, heffect⟩ := memoryAllocate_eq_ok hmemory hlt hallocate
      have hbelow := heffect.below_4GiB
      refine ⟨show physicalBase + totalImageSize < 2 ^ 32 from ?_, hlow⟩
      simp only [archPagesize] at haddress hbelow
      omega

theorem forall_split_cons {property : List Elf32Phdr → Elf32Phdr → Prop} :
    (∀ front other back, phdr :: rest = front ++ other :: back → property front other) ↔
      property [] phdr ∧
        ∀ front other back, rest = front ++ other :: back → property (phdr :: front) other := by
  constructor
  · intro hall
    exact ⟨hall [] phdr rest rfl, fun front other back hsplit =>
      hall (phdr :: front) other back (by rw [hsplit, List.cons_append])⟩
  · rintro ⟨hfirst, hrest⟩ front other back hsplit
    cases front with
    | nil =>
        obtain ⟨rfl, _⟩ := List.cons.inj hsplit
        exact hfirst
    | cons head front =>
        rw [List.cons_append, List.cons.injEq] at hsplit
        obtain ⟨rfl, hback⟩ := hsplit
        exact hrest front other back hback

/-! ## Nothing else is written -/

variable {bytes : Memory} {position targetAddress : ℕ}

theorem readSegment_of_not_covers
    (hoff : 0 < phdr.filesz → ¬ Write.Covers (targetAddress, file.delivered phdr) position) :
    (readSegment file phdr targetAddress bytes).2 position = bytes position := by
  rw [readSegment]
  split
  · rename_i hpos
    dsimp only
    have houtside := hoff hpos
    simp only [Write.Covers, not_and_or, not_le, not_lt] at houtside
    exact writeBytes_of_notMem houtside
  · rfl

theorem clearRest_of_not_covers
    (hoff : phdr.filesz < phdr.memsz →
      ¬ Write.Covers (u32 (targetAddress + phdr.filesz), phdr.memsz - phdr.filesz) position) :
    clearRest phdr targetAddress bytes position = bytes position := by
  rw [clearRest]
  split
  · rename_i hmore
    have houtside := hoff hmore
    simp only [Write.Covers, not_and_or, not_le, not_lt] at houtside
    exact writeBytes_of_notMem houtside
  · rfl

/-- A byte of a page in use is changed by a write of the segment only. -/
theorem loadSegment_bytes {success : Bool} (hmemory : state.memory.WellFormed)
    (huse : InUse state (position / 4096))
    (hoff : ∀ write ∈ segmentWrites file physicalBase originalVirtualBase phdr,
      ¬ Write.Covers write position)
    (hcall : loadSegment file physicalBase originalVirtualBase virtualBase phdr state =
      .ok (success, after)) :
    after.memory.WellFormed ∧ InUse after (position / 4096) ∧
      after.bytes position = state.bytes position := by
  obtain ⟨targetAddress, htarget⟩ : ∃ targetAddress,
      u32 (physicalBase + sub32 phdr.vaddr originalVirtualBase) = targetAddress := ⟨_, rfl⟩
  rw [segmentWrites, htarget] at hoff
  have hread := @readSegment_of_not_covers file phdr state.bytes position targetAddress
    fun hpos => hoff _ (by simp [hpos])
  rw [loadSegment, htarget] at hcall
  obtain ⟨full, bytes, hcase⟩ : ∃ full bytes,
      readSegment file phdr targetAddress state.bytes = (full, bytes) := ⟨_, _, rfl⟩
  rw [hcase] at hread
  simp only [hcase] at hcall
  cases full with
  | false =>
      obtain ⟨_, rfl⟩ := Prod.mk.inj (Except.ok.inj hcall)
      exact ⟨hmemory, huse, hread⟩
  | true =>
      have hfull : 0 < phdr.filesz → file.delivered phdr = phdr.filesz := by
        intro hpos
        rw [readSegment, if_pos hpos] at hcase
        exact of_decide_eq_true (Prod.mk.inj hcase).1
      have hclear := @clearRest_of_not_covers phdr bytes position targetAddress fun hmore =>
        hoff _ (by
          have hread : ¬ (0 < phdr.filesz ∧ file.delivered phdr ≠ phdr.filesz) :=
            fun hshort => hshort.2 (hfull hshort.1)
          simp [hread, hmore])
      obtain ⟨mapped, hmap, hlast⟩ := bind_eq_ok.mp hcall
      obtain ⟨_, rfl⟩ := Prod.mk.inj (Except.ok.inj hlast)
      obtain ⟨hafter, hkeeps⟩ := mapLoop_keeps
        (show MemoryState.WellFormed { state with
          bytes := clearRest phdr targetAddress bytes }.memory from hmemory) hmap
      exact ⟨hafter, hkeeps.in_use _ huse, (hkeeps.bytes position huse).trans
        (hclear.trans hread)⟩

/-- The writes are all that the loop changes in pages in use. -/
theorem loadSegments_bytes {success : Bool} (hmemory : state.memory.WellFormed)
    (huse : InUse state (position / 4096))
    (hoff : ∀ write ∈ loadWrites file physicalBase originalVirtualBase virtualBase phdrs state,
      ¬ Write.Covers write position)
    (hcall : loadSegments file physicalBase originalVirtualBase virtualBase phdrs state =
      .ok (success, after)) :
    after.bytes position = state.bytes position := by
  induction phdrs generalizing state with
  | nil =>
      obtain ⟨_, rfl⟩ := Prod.mk.inj (Except.ok.inj hcall)
      rfl
  | cons phdr rest ih =>
      rw [loadSegments] at hcall
      rw [loadWrites] at hoff
      by_cases hload : phdr.type = ptLoad
      · rw [if_pos hload] at hcall hoff
        obtain ⟨⟨goesOn, middle⟩, hsegment, hrest⟩ := bind_eq_ok.mp hcall
        rw [hsegment, List.forall_mem_append] at hoff
        obtain ⟨hmiddle, huse', hbytes⟩ := loadSegment_bytes hmemory huse hoff.1 hsegment
        cases goesOn with
        | false =>
            obtain ⟨_, rfl⟩ := Prod.mk.inj (Except.ok.inj hrest)
            exact hbytes
        | true => exact (ih hmiddle huse' hoff.2 hrest).trans hbytes
      · rw [if_neg hload] at hcall hoff
        exact ih hmemory huse hoff hcall

/-! ## Inside the range -/

/-- The writes of the loop stay in the range exactly if every segment it comes
to fits. -/
theorem loadWrites_inside_iff {size : ℕ}
    (hwords : ∀ phdr ∈ phdrs, phdr.type = ptLoad → phdr.IsWords)
    (hlow : ∀ phdr ∈ phdrs, phdr.type = ptLoad → originalVirtualBase ≤ phdr.vaddr)
    (hend : physicalBase + size < 2 ^ 32) :
    (∀ write ∈ loadWrites file physicalBase originalVirtualBase virtualBase phdrs state,
        write.Inside physicalBase size) ↔
      ∀ front phdr back, phdrs = front ++ phdr :: back → phdr.type = ptLoad →
        (∃ middle, loadSegments file physicalBase originalVirtualBase virtualBase front state =
          .ok (true, middle)) → phdr.Fits file originalVirtualBase size := by
  induction phdrs generalizing state with
  | nil => simp [loadWrites]
  | cons phdr rest ih =>
      have hwords' : ∀ other ∈ rest, other.type = ptLoad → other.IsWords :=
        fun other hmem => hwords other (List.mem_cons_of_mem _ hmem)
      have hlow' : ∀ other ∈ rest, other.type = ptLoad → originalVirtualBase ≤ other.vaddr :=
        fun other hmem => hlow other (List.mem_cons_of_mem _ hmem)
      rw [loadWrites, forall_split_cons]
      simp only [loadSegments]
      by_cases hload : phdr.type = ptLoad
      · have hsegment := @segmentWrites_inside_iff file phdr physicalBase originalVirtualBase size
          (hwords phdr List.mem_cons_self hload) (hlow phdr List.mem_cons_self hload) hend
        simp only [if_pos hload, List.forall_mem_append, hsegment]
        apply and_congr (by simp [hload])
        cases hcall : loadSegment file physicalBase originalVirtualBase virtualBase phdr state with
        | error halt => simp
        | ok loaded =>
            obtain ⟨success, middle⟩ := loaded
            cases success with
            | false => simp
            | true =>
                simp only [ok_bind, if_true]
                exact ih hwords' hlow'
      · simp only [if_neg hload]
        rw [ih hwords' hlow']
        simp [hload]

/-- A segment that is not longer in the file than in memory, and does not wrap
around, fits. -/
theorem Elf32Phdr.fits_of_filesz_le {pages : ℕ}
    (hbounds : ImageBounds phdrs originalVirtualBase pages) (hmem : phdr ∈ phdrs)
    (hload : phdr.type = ptLoad) (hfilesz : phdr.filesz ≤ phdr.memsz) :
    phdr.Fits file originalVirtualBase (pages * 4096) := by
  have hhigh := hbounds.high phdr hmem hload
  have hdelivered := file.delivered_le phdr
  exact ⟨fun _ => by omega, fun _ _ => by omega⟩

/-! ## A segment with more bytes in the file than in memory -/

/-- Twelve kilobytes of data for one page. -/
def longData : Elf32Phdr := ⟨ptLoad, 0, 0x100000, 0x3000, 0x1000, 6⟩

def longFile : File := ⟨0x4000, fun offset => UInt8.ofNat offset⟩

/-- The plan for one page at the address of the segment. -/
def onePagePlan : LoadPlan := ⟨0x1000, 0x100000, 0x100000, 0x1000,
  { freshState with memory := freshMemory 1 }⟩

theorem loadPlan_onePage (hsize : elf32GetImageSize phdrs = (0x1000, 0x100000)) :
    loadPlan .geexOSKernelExecutable phdrs freshState = .ok (some onePagePlan) := by
  have hbase : findVirtualBase freshState 0x100000 0x1000 = .ok (some 0x100000) := rfl
  have hfind : memoryFindAvailablePages freshState.memory 1 = .ok 1 := rfl
  have hmark : memoryMarkPages freshState.memory 1 1 .geexOSKernelExecutable =
      .ok (freshMemory 1) := rfl
  have hallocate : memoryAllocate freshState.memory 0x1000 .geexOSKernelExecutable =
      .ok (0x1000, freshMemory 1) :=
    memoryAllocate_of_steps (by decide) (by decide) hfind hmark (by decide)
  simp only [loadPlan, hsize, hbase, hallocate, ok_bind]
  rfl

end GeexOS.Elf
