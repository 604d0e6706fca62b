import GeexOS.Loader.ElfRelocation
import GeexOS.Loader.ElfSearch

/-!
# Relocation and the physical placement of an image

The words to relocate are found at physical addresses, but what is stored in
them is meant for the virtual addresses the image runs at.  Two runs over the
same image at different places show where the one leaks into the other.
-/

namespace GeexOS.Elf

open GeexOS.Words
open GeexOS.Halting
open GeexOS.ByteMemory

variable {memory memory' : Memory} {image symbol symbol' fuel : ℕ} {name : List UInt8}

/-! ## Symbol tables that read alike -/

/-- Symbol `n` of two contexts has the same name, binding, section and value. -/
structure SameSymbol (memory memory' : Memory) (context context' n : ℕ) : Prop where
  null : symbolAt memory context n = 0 ↔ symbolAt memory' context' n = 0
  name : ∃ name, NameAt memory (symbolName memory context (symbolAt memory context n)) name ∧
    NameAt memory' (symbolName memory' context' (symbolAt memory' context' n)) name
  bind : symbolBind memory' (symbolAt memory' context' n) =
    symbolBind memory (symbolAt memory context n)
  definedIn : symbolSection memory' (symbolAt memory' context' n) =
    symbolSection memory (symbolAt memory context n)
  value : symbolValue memory' (symbolAt memory' context' n) =
    symbolValue memory (symbolAt memory context n)

/-- The hash table of the image and the symbols on its chains are the same in
two memories, wherever they lie. -/
structure SameTables (memory memory' : Memory) (image : ℕ) : Prop where
  context : elf32GetLoaderContext memory image = 0 ↔ elf32GetLoaderContext memory' image = 0
  nbucket : contextNbucket memory' (elf32GetLoaderContext memory' image) =
    contextNbucket memory (elf32GetLoaderContext memory image)
  bucket : ∀ index < contextNbucket memory (elf32GetLoaderContext memory image),
    contextBucket memory' (elf32GetLoaderContext memory' image) index =
        contextBucket memory (elf32GetLoaderContext memory image) index ∧
      contextBucket memory (elf32GetLoaderContext memory image) index <
        contextNchain memory (elf32GetLoaderContext memory image)
  chain : ∀ n, n ≠ 0 → n < contextNchain memory (elf32GetLoaderContext memory image) →
    contextChain memory' (elf32GetLoaderContext memory' image) n =
        contextChain memory (elf32GetLoaderContext memory image) n ∧
      contextChain memory (elf32GetLoaderContext memory image) n <
        contextNchain memory (elf32GetLoaderContext memory image)
  symbols : ∀ n, n ≠ 0 → n < contextNchain memory (elf32GetLoaderContext memory image) →
    SameSymbol memory memory' (elf32GetLoaderContext memory image)
      (elf32GetLoaderContext memory' image) n

/-- Two lookups end alike: they stop in the same way, find nothing, or find
symbols of one value. -/
def SameFinding (memory memory' : Memory) : Outcome ℕ → Outcome ℕ → Prop
  | .error halt, found' => found' = .error halt
  | .ok s, found' => ∃ s', found' = .ok s' ∧ (s = 0 ↔ s' = 0) ∧
      (s ≠ 0 → symbolValue memory' s' = symbolValue memory s)

theorem sameFinding_zero (memory memory' : Memory) :
    SameFinding memory memory' (.ok 0) (.ok 0) :=
  ⟨0, rfl, Iff.rfl, fun hne => absurd rfl hne⟩

theorem SameTables.chainLoop (hsame : SameTables memory memory' image)
    (hname : NameAt memory symbol name) (hname' : NameAt memory' symbol' name) {n : ℕ}
    (hn : n < contextNchain memory (elf32GetLoaderContext memory image)) :
    SameFinding memory memory'
      (chainLoop memory (elf32GetLoaderContext memory image) symbol fuel n)
      (chainLoop memory' (elf32GetLoaderContext memory' image) symbol' fuel n) := by
  induction fuel generalizing n with
  | zero => rfl
  | succ fuel ih =>
      rw [Elf.chainLoop, Elf.chainLoop]
      by_cases hzero : n = 0
      · rw [if_pos hzero, if_pos hzero]
        exact sameFinding_zero memory memory'
      · obtain ⟨hnull, ⟨other, hother, hother'⟩, hbind, hsection, hvalue⟩ :=
          hsame.symbols n hzero hn
        obtain ⟨hnext, hbound⟩ := hsame.chain n hzero hn
        simp only [if_neg hzero, hother.strcmp_eq hname, hother'.strcmp_eq hname', ok_bind,
          hbind, hsection, hnext]
        split
        · exact ⟨_, rfl, hnull, fun _ => hvalue⟩
        · exact ih hbound

theorem SameTables.lookup (hsame : SameTables memory memory' image)
    (hname : NameAt memory symbol name) (hname' : NameAt memory' symbol' name) :
    SameFinding memory memory' (elfElf32LookupSymbolInImage memory image symbol)
      (elfElf32LookupSymbolInImage memory' image symbol') := by
  rw [elfElf32LookupSymbolInImage, elfElf32LookupSymbolInImage, hname.elfhash_eq,
    hname'.elfhash_eq, ok_bind, ok_bind]
  simp only [hsame.nbucket, ← hsame.context]
  split
  · exact sameFinding_zero memory memory'
  · split
    · rfl
    · rename_i hbuckets
      obtain ⟨hbucket, hbound⟩ :=
        hsame.bucket _ (Nat.mod_lt (hashOf name) (Nat.pos_of_ne_zero hbuckets))
      rw [hbucket]
      exact hsame.chainLoop hname hname' hbound

/-- Two searches look into the same images and end alike. -/
def SameSearch (memory memory' : Memory) (search search' : Search) : Prop :=
  search'.1 = search.1 ∧ SameFinding memory memory' search.2 search'.2

theorem SameTables.examine {rest rest' : Search} (hsame : SameTables memory memory' image)
    (hname : NameAt memory symbol name) (hname' : NameAt memory' symbol' name)
    (hrest : (∀ searched ∈ rest.1, searched ∈ (examine memory image symbol rest).1) →
      SameSearch memory memory' rest rest') :
    SameSearch memory memory' (examine memory image symbol rest)
      (examine memory' image symbol' rest') := by
  have hfinding := hsame.lookup hname hname'
  revert hrest
  rw [Elf.examine, Elf.examine]
  cases hlookup : elfElf32LookupSymbolInImage memory image symbol with
  | error halt =>
      rw [hlookup] at hfinding
      rw [show elfElf32LookupSymbolInImage memory' image symbol' = .error halt from hfinding]
      exact fun _ => ⟨rfl, rfl⟩
  | ok s =>
      rw [hlookup] at hfinding
      obtain ⟨s', hlookup', hzero, hvalue⟩ := hfinding
      simp only [hlookup']
      by_cases hs : s = 0
      · rw [if_neg (not_not.mpr hs), if_neg (not_not.mpr (hzero.mp hs))]
        intro hrest
        obtain ⟨himages, hfound⟩ := hrest fun searched hmem => List.mem_cons_of_mem _ hmem
        exact ⟨by rw [himages], hfound⟩
      · rw [if_pos hs, if_pos fun hs' => hs (hzero.mpr hs')]
        exact fun _ => ⟨rfl, s', rfl, hzero, hvalue⟩

theorem sameSearch_neededLoop (hname : NameAt memory symbol name)
    (hname' : NameAt memory' symbol' name) {start : ℕ}
    (htables : ∀ searched ∈ (neededLoop memory symbol fuel start).1,
      SameTables memory memory' searched) :
    SameSearch memory memory' (neededLoop memory symbol fuel start)
      (neededLoop memory' symbol' fuel start) := by
  induction fuel generalizing start with
  | zero => exact ⟨rfl, rfl⟩
  | succ fuel ih =>
      revert htables
      rw [neededLoop, neededLoop]
      split
      · exact fun _ => ⟨rfl, sameFinding_zero memory memory'⟩
      · intro htables
        refine (htables start (mem_examine _ _ _ _)).examine hname hname' fun hrest => ?_
        exact ih fun searched hmem => htables searched (hrest searched hmem)

/-- The executable, if there is one, and then the needed images. -/
theorem sameSearch_global (hname : NameAt memory symbol name)
    (hname' : NameAt memory' symbol' name) {executable start : ℕ}
    (htables : ∀ searched ∈ (if executable ≠ 0 then
        examine memory executable symbol (neededLoop memory symbol fuel start)
      else neededLoop memory symbol fuel start).1, SameTables memory memory' searched) :
    SameSearch memory memory'
      (if executable ≠ 0 then
        examine memory executable symbol (neededLoop memory symbol fuel start)
      else neededLoop memory symbol fuel start)
      (if executable ≠ 0 then
        examine memory' executable symbol' (neededLoop memory' symbol' fuel start)
      else neededLoop memory' symbol' fuel start) := by
  by_cases hne : executable ≠ 0
  · simp only [if_pos hne] at htables ⊢
    refine (htables _ (mem_examine _ _ _ _)).examine hname hname' fun hrest => ?_
    exact sameSearch_neededLoop hname hname' fun searched hmem =>
      htables searched (hrest searched hmem)
  · simp only [if_neg hne] at htables ⊢
    exact sameSearch_neededLoop hname hname' htables

theorem sameSearch_lookupSymbol {loadedImages neededImages : ℕ}
    (hcontext : elf32GetLoaderContext memory' image = elf32GetLoaderContext memory image)
    (hsymbolic : contextHasSymbolic memory' (elf32GetLoaderContext memory image) =
      contextHasSymbolic memory (elf32GetLoaderContext memory image))
    (hexecutable : loaderGetExecutable memory' loadedImages =
      loaderGetExecutable memory loadedImages)
    (hneeded : load32 memory' neededImages = load32 memory neededImages)
    (hname : NameAt memory symbol name) (hname' : NameAt memory' symbol' name)
    (htables : ∀ searched ∈
      (elfElf32LookupSymbol memory loadedImages image symbol neededImages).1,
      SameTables memory memory' searched) :
    SameSearch memory memory'
      (elfElf32LookupSymbol memory loadedImages image symbol neededImages)
      (elfElf32LookupSymbol memory' loadedImages image symbol' neededImages) := by
  revert htables
  rw [elfElf32LookupSymbol, elfElf32LookupSymbol, hcontext]
  simp only [hsymbolic, hexecutable, hneeded]
  split
  · exact fun _ => ⟨rfl, sameFinding_zero memory memory'⟩
  · split
    · intro hall
      refine (hall _ (mem_examine _ _ _ _)).examine hname hname' fun hrest => ?_
      exact sameSearch_global hname hname' fun searched hmem =>
        hall searched (hrest searched hmem)
    · exact sameSearch_global hname hname'

/-! ## Relocation tables that read alike -/

namespace RelocationRequest

/-- The request for the same table at another place. -/
def withRelocs (request : RelocationRequest) (relocs : ℕ) : RelocationRequest :=
  { request with relocs := relocs }

/-- Relocation `index` and its symbol read alike from two memories: the entry,
the bases and every table that the symbol search looks into. -/
structure SameInputs (request : RelocationRequest) (relocs' index : ℕ)
    (memory memory' : Memory) : Prop where
  originalBase : imageOriginalBase memory' request.image = imageOriginalBase memory request.image
  virtualBase : imageVirtualBase memory' request.image = imageVirtualBase memory request.image
  offset : relocationOffset memory' (relocationAt relocs' index) =
    relocationOffset memory (relocationAt request.relocs index)
  info : load32 memory' (relocationAt relocs' index + 4) =
    load32 memory (relocationAt request.relocs index + 4)
  context : elf32GetLoaderContext memory' request.image =
    elf32GetLoaderContext memory request.image
  symbolic : contextHasSymbolic memory' (elf32GetLoaderContext memory request.image) =
    contextHasSymbolic memory (elf32GetLoaderContext memory request.image)
  executable : loaderGetExecutable memory' request.loadedImages =
    loaderGetExecutable memory request.loadedImages
  needed : load32 memory' request.neededImages = load32 memory request.neededImages
  names : relocationSym memory (relocationAt request.relocs index) ≠ 0 →
    ∃ name, NameAt memory (symbolName memory request.context (symbolAt memory request.context
        (relocationSym memory (relocationAt request.relocs index)))) name ∧
      NameAt memory' (symbolName memory' request.context (symbolAt memory' request.context
        (relocationSym memory (relocationAt request.relocs index)))) name
  tables : relocationSym memory (relocationAt request.relocs index) ≠ 0 →
    ∀ searched ∈ (request.symbolSearch memory index).1, SameTables memory memory' searched

variable {request : RelocationRequest} {relocs' index : ℕ}

theorem SameInputs.type_eq (hsame : request.SameInputs relocs' index memory memory') :
    relocationType memory' (relocationAt relocs' index) =
      relocationType memory (relocationAt request.relocs index) := by
  rw [relocationType, relocationType, hsame.info]

theorem SameInputs.sym_eq (hsame : request.SameInputs relocs' index memory memory') :
    relocationSym memory' (relocationAt relocs' index) =
      relocationSym memory (relocationAt request.relocs index) := by
  rw [relocationSym, relocationSym, hsame.info]

/-- The symbol address does not depend on where the tables lie. -/
theorem SameInputs.symbolAddress_eq (hsame : request.SameInputs relocs' index memory memory') :
    (request.withRelocs relocs').symbolAddress memory' index =
      request.symbolAddress memory index := by
  rw [symbolAddress, symbolAddress]
  simp only [withRelocs, symbolSearch, hsame.sym_eq, hsame.originalBase, hsame.virtualBase]
  by_cases hzero : relocationSym memory (relocationAt request.relocs index) = 0
  · rw [if_pos hzero, if_pos hzero]
  · rw [if_neg hzero, if_neg hzero]
    obtain ⟨name, hname, hname'⟩ := hsame.names hzero
    have hsearch := (sameSearch_lookupSymbol hsame.context hsame.symbolic hsame.executable
      hsame.needed hname hname' (hsame.tables hzero)).2
    revert hsearch
    generalize (elfElf32LookupSymbol memory _ _ _ _).2 = found
    generalize (elfElf32LookupSymbol memory' _ _ _ _).2 = found'
    intro hsearch
    cases found with
    | error halt =>
        rw [show found' = .error halt from hsearch, error_bind, error_bind]
    | ok s =>
        obtain ⟨s', rfl, hnull, hvalue⟩ := hsearch
        rw [ok_bind, ok_bind]
        by_cases hs : s = 0
        · rw [if_pos hs, if_pos (hnull.mp hs)]
        · rw [if_neg hs, if_neg fun hs' => hs (hnull.mpr hs'), hvalue hs]

/-! ## What a relocation writes -/

/-- The value the `switch` stores, if it stores one, for a word and the
addresses it is computed from. -/
def relocatedWord (type sym position word address originalBase virtualBase : ℕ) : Option ℕ :=
  if type = r386JmpSlot then some address
  else if type = r386GlobDat then some address
  else if type = r386Relative then
    if sym ≠ 0 then none else some (u32 (word + u32 (sub64 virtualBase originalBase)))
  else if type = r386_32 then some (u32 (word + address))
  else if type = r386Pc32 then some (u32 (word + sub32 address position))
  else none

theorem applyType_eq_map (request : RelocationRequest) (memory : Memory)
    (type sym position address : ℕ) :
    request.applyType memory type sym position address =
      (relocatedWord type sym position (load32 memory position) address
        (imageOriginalBase memory request.image) (imageVirtualBase memory request.image)).map
        (store32 memory position) := by
  rw [applyType, relocatedWord]
  split_ifs <;> rfl

/-- Only `R_386_PC32` looks at the position itself. -/
theorem relocatedWord_congr {type position position' : ℕ} (sym word address originalBase
    virtualBase : ℕ) (hposition : type = r386Pc32 → position = position') :
    relocatedWord type sym position word address originalBase virtualBase =
      relocatedWord type sym position' word address originalBase virtualBase := by
  rw [relocatedWord, relocatedWord]
  split_ifs with hslot hglob hrelative hsym hword hpc
  all_goals first | rfl | rw [hposition hpc]

/-- A step that goes on leaves the memory as it is or stores one word. -/
theorem doRelocationStep_eq_ok {after : Memory}
    (hstep : request.doRelocationStep memory index = .ok (true, after)) :
    relocationType memory (relocationAt request.relocs index) = 0 ∧ after = memory ∨
    relocationType memory (relocationAt request.relocs index) ≠ 0 ∧ ∃ address value,
      request.symbolAddress memory index = .ok (some address) ∧
      relocatedWord (relocationType memory (relocationAt request.relocs index))
        (relocationSym memory (relocationAt request.relocs index))
        (relocPosition memory request.image (relocationAt request.relocs index))
        (load32 memory (relocPosition memory request.image (relocationAt request.relocs index)))
        address (imageOriginalBase memory request.image)
        (imageVirtualBase memory request.image) = some value ∧
      after = store32 memory
        (relocPosition memory request.image (relocationAt request.relocs index)) value := by
  simp only [doRelocationStep] at hstep
  split at hstep
  · rename_i htype
    rw [Except.ok.injEq, Prod.mk.injEq] at hstep
    exact Or.inl ⟨htype, hstep.2.symm⟩
  · rename_i htype
    obtain ⟨address, haddress, hstep⟩ := bind_eq_ok.mp hstep
    cases address with
    | none => simp at hstep
    | some address =>
        simp only [applyType_eq_map] at hstep
        refine Or.inr ⟨htype, address, ?_⟩
        split at hstep
        · simp at hstep
        · rename_i written happly
          obtain ⟨value, hvalue, rfl⟩ := Option.map_eq_some_iff.mp happly
          rw [Except.ok.injEq, Prod.mk.injEq] at hstep
          exact ⟨value, haddress, hvalue, hstep.2.symm⟩

/-- A run that goes on has gone on at every relocation before. -/
theorem doRelocations_succ_eq_ok {count : ℕ} {after : Memory}
    (hrun : request.doRelocations memory (count + 1) = .ok (true, after)) :
    ∃ before, request.doRelocations memory count = .ok (true, before) ∧
      request.doRelocationStep before count = .ok (true, after) := by
  rw [doRelocations] at hrun
  obtain ⟨⟨success, before⟩, hbefore, hrun⟩ := bind_eq_ok.mp hrun
  cases success with
  | false => simp at hrun
  | true => exact ⟨before, hbefore, by simpa using hrun⟩

/-- A table that is accepted as a whole is run through up to each entry. -/
theorem doRelocations_prefix {count : ℕ} {after : Memory} (hindex : index < count)
    (hrun : request.doRelocations memory count = .ok (true, after)) :
    ∃ before middle, request.doRelocations memory index = .ok (true, before) ∧
      request.doRelocationStep before index = .ok (true, middle) := by
  induction count generalizing after with
  | zero => exact absurd hindex (Nat.not_lt_zero _)
  | succ count ih =>
      obtain ⟨before, hbefore, hstep⟩ := doRelocations_succ_eq_ok hrun
      rcases Nat.lt_succ_iff_lt_or_eq.mp hindex with hlt | rfl
      · exact ih hlt hbefore
      · exact ⟨before, after, hbefore, hstep⟩

/-! ## An image in memory -/

/-- The place of a relocated word in the image. -/
def imageOffset (request : RelocationRequest) (memory : Memory) (index : ℕ) : ℕ :=
  u32 (sub64 (relocationOffset memory (relocationAt request.relocs index))
    (imageOriginalBase memory request.image))

/-- An image of `size` bytes lies at its physical base, apart from the loader's
record of it, and every relocation is for a word of the image when its turn
comes. -/
structure Placed (request : RelocationRequest) (memory : Memory) (size : ℕ) : Prop where
  context_eq : request.context = elf32GetLoaderContext memory request.image
  end_le : imagePhysicalBase memory request.image + size ≤ 2 ^ 32
  record : request.image + sizeofLoadedImage ≤ imagePhysicalBase memory request.image ∨
    imagePhysicalBase memory request.image + size ≤ request.image
  inside : ∀ index < request.relCount, ∀ before,
    request.doRelocations memory index = .ok (true, before) →
    request.imageOffset before index + 4 ≤ size

variable {size count address : ℕ} {before before' after after' : Memory}

theorem rebase_of_fits {offset original base : ℕ}
    (hfits : u32 (sub64 offset original) + base < 2 ^ 32) :
    rebase offset original base = base + u32 (sub64 offset original) := by
  simp only [rebase, u32, u64] at hfits ⊢
  omega

/-- The bases in the record of the image. -/
structure SameBases (request : RelocationRequest) (memory before : Memory) : Prop where
  physical : imagePhysicalBase before request.image = imagePhysicalBase memory request.image
  virtual : imageVirtualBase before request.image = imageVirtualBase memory request.image
  original : imageOriginalBase before request.image = imageOriginalBase memory request.image

theorem Placed.relocPosition_eq (hplaced : request.Placed memory size)
    (hindex : index < request.relCount)
    (hbefore : request.doRelocations memory index = .ok (true, before))
    (hbases : request.SameBases memory before) :
    relocPosition before request.image (relocationAt request.relocs index) =
      imagePhysicalBase memory request.image + request.imageOffset before index := by
  have hend := hplaced.end_le
  have hinside := hplaced.inside index hindex before hbefore
  rw [relocPosition, hbases.physical]
  exact rebase_of_fits (by
    rw [imageOffset] at hinside
    omega)

/-- A relocated word is apart from the record. -/
theorem Placed.sameBases_store (hplaced : request.Placed memory size) {offset : ℕ} (value : ℕ)
    (hbases : request.SameBases memory before) (hoffset : offset + 4 ≤ size) :
    request.SameBases memory
      (store32 before (imagePhysicalBase memory request.image + offset) value) := by
  have hrecord := hplaced.record
  have hword : ∀ field, field + 4 ≤ sizeofLoadedImage →
      load32 (store32 before (imagePhysicalBase memory request.image + offset) value)
        (request.image + field) = load32 before (request.image + field) :=
    fun field hfield => load32_store32_of_disjoint (by omega)
  have hfields : ∀ field, field + 8 ≤ sizeofLoadedImage →
      load64 (store32 before (imagePhysicalBase memory request.image + offset) value)
        (request.image + field) = load64 before (request.image + field) := by
    intro field hfield
    rw [load64, load64, Nat.add_assoc, hword field (by omega), hword (field + 4) (by omega)]
  exact ⟨(hfields 32 (by decide)).trans hbases.physical,
    (hfields 40 (by decide)).trans hbases.virtual,
    (hfields 48 (by decide)).trans hbases.original⟩

/-- The run does not touch the record. -/
theorem Placed.sameBases (hplaced : request.Placed memory size)
    (hcount : count ≤ request.relCount)
    (hrun : request.doRelocations memory count = .ok (true, before)) :
    request.SameBases memory before := by
  induction count generalizing before with
  | zero =>
      rw [doRelocations, Except.ok.injEq, Prod.mk.injEq] at hrun
      rw [← hrun.2]
      exact ⟨rfl, rfl, rfl⟩
  | succ count ih =>
      obtain ⟨middle, hmiddle, hstep⟩ := doRelocations_succ_eq_ok hrun
      have hbases := ih (by omega) hmiddle
      rcases doRelocationStep_eq_ok hstep with ⟨_, rfl⟩ | ⟨_, _, value, _, _, rfl⟩
      · exact hbases
      · rw [hplaced.relocPosition_eq hcount hmiddle hbases]
        exact hplaced.sameBases_store value hbases (hplaced.inside count hcount middle hmiddle)

/-! ## Two placements -/

/-- The same bytes from two bases on. -/
def SameImage (base base' size : ℕ) (before before' : Memory) : Prop :=
  ∀ offset < size, before' (base' + offset) = before (base + offset)

theorem SameImage.load32_eq {base base' offset : ℕ}
    (hsame : SameImage base base' size before before')
    (hoffset : offset + 4 ≤ size) :
    load32 before' (base' + offset) = load32 before (base + offset) := by
  refine load32_eq_of_bytes fun index hindex => ?_
  rw [Nat.add_assoc, Nat.add_assoc]
  exact hsame _ (by omega)

theorem SameImage.store32 {base base' offset value : ℕ}
    (hsame : SameImage base base' size before before') :
    SameImage base base' size (store32 before (base + offset) value)
      (store32 before' (base' + offset) value) := by
  intro other hother
  by_cases hinside : offset ≤ other ∧ other < offset + 4
  · obtain ⟨index, rfl⟩ := Nat.exists_eq_add_of_le hinside.1
    rw [← Nat.add_assoc, ← Nat.add_assoc, store32_byte (by omega), store32_byte (by omega)]
  · rw [store32_of_notMem (by omega), store32_of_notMem (by omega)]
    exact hsame other hother

/-- Two memories with the same image at two places.  As long as the images
agree, what the relocation reads next is the same in both. -/
structure TwoPlacements (request : RelocationRequest) (relocs' size : ℕ)
    (memory memory' : Memory) : Prop where
  first : request.Placed memory size
  second : (request.withRelocs relocs').Placed memory' size
  virtualBase : imageVirtualBase memory' request.image = imageVirtualBase memory request.image
  originalBase : imageOriginalBase memory' request.image = imageOriginalBase memory request.image
  bytes : SameImage (imagePhysicalBase memory request.image)
    (imagePhysicalBase memory' request.image) size memory memory'
  inputs : ∀ index < request.relCount, ∀ before before',
    request.doRelocations memory index = .ok (true, before) →
    (request.withRelocs relocs').doRelocations memory' index = .ok (true, before') →
    SameImage (imagePhysicalBase memory request.image)
      (imagePhysicalBase memory' request.image) size before before' →
    request.SameInputs relocs' index before before'

/-- The run has not met a relative address before entry `count`. -/
def NoPc32 (request : RelocationRequest) (memory : Memory) (count : ℕ) : Prop :=
  ∀ index < count, ∀ before, request.doRelocations memory index = .ok (true, before) →
    relocationType before (relocationAt request.relocs index) ≠ r386Pc32

theorem NoPc32.mono {count' : ℕ} (hnone : request.NoPc32 memory count) (hle : count' ≤ count) :
    request.NoPc32 memory count' :=
  fun index hindex => hnone index (hindex.trans_le hle)

/-- One relocation in both runs. -/
theorem TwoPlacements.step (htwo : request.TwoPlacements relocs' size memory memory')
    (hindex : index < request.relCount)
    (hbefore : request.doRelocations memory index = .ok (true, before))
    (hbefore' : (request.withRelocs relocs').doRelocations memory' index = .ok (true, before'))
    (hsame : SameImage (imagePhysicalBase memory request.image)
      (imagePhysicalBase memory' request.image) size before before')
    (hpc : relocationType before (relocationAt request.relocs index) = r386Pc32 →
      imagePhysicalBase memory request.image = imagePhysicalBase memory' request.image)
    (hstep : request.doRelocationStep before index = .ok (true, after))
    (hstep' : (request.withRelocs relocs').doRelocationStep before' index = .ok (true, after')) :
    SameImage (imagePhysicalBase memory request.image)
      (imagePhysicalBase memory' request.image) size after after' := by
  have hinputs := htwo.inputs index hindex before before' hbefore hbefore' hsame
  have hinside := htwo.first.inside index hindex before hbefore
  have hposition := htwo.first.relocPosition_eq hindex hbefore
    (htwo.first.sameBases hindex.le hbefore)
  have hposition' := htwo.second.relocPosition_eq hindex hbefore'
    (htwo.second.sameBases hindex.le hbefore')
  have hoffset : (request.withRelocs relocs').imageOffset before' index =
      request.imageOffset before index :=
    congrArg₂ (fun offset base => u32 (sub64 offset base)) hinputs.offset hinputs.originalBase
  rw [hoffset] at hposition'
  rcases doRelocationStep_eq_ok hstep with
    ⟨hzero, rfl⟩ | ⟨hne, address, value, haddress, hvalue, rfl⟩
  · rcases doRelocationStep_eq_ok hstep' with ⟨_, rfl⟩ | ⟨hne, _⟩
    · exact hsame
    · exact absurd (hinputs.type_eq.trans hzero) hne
  · rcases doRelocationStep_eq_ok hstep' with ⟨hzero, _⟩ |
      ⟨_, address', value', haddress', hvalue', rfl⟩
    · exact absurd (hinputs.type_eq.symm.trans hzero) hne
    · -- the same word, symbol address and bases, so the same value
      obtain rfl : address' = address := Option.some.inj (Except.ok.inj
        (haddress'.symm.trans (hinputs.symbolAddress_eq.trans haddress)))
      rw [hposition] at hvalue
      rw [hposition'] at hvalue'
      simp only [withRelocs, hinputs.type_eq, hinputs.sym_eq, hinputs.originalBase,
        hinputs.virtualBase] at hvalue'
      rw [hsame.load32_eq hinside, relocatedWord_congr _ _ _ _ _ fun htypes =>
        congrArg (· + request.imageOffset before index) (hpc htypes).symm, hvalue,
        Option.some.injEq] at hvalue'
      rw [hposition, hposition', hvalue']
      exact hsame.store32

/-- Both runs, as far as both go on without a relative address. -/
theorem TwoPlacements.run (htwo : request.TwoPlacements relocs' size memory memory')
    (hcount : count ≤ request.relCount)
    (hpc : request.NoPc32 memory count ∨
      (request.withRelocs relocs').NoPc32 memory' count ∨
      (0 < size → imagePhysicalBase memory request.image =
        imagePhysicalBase memory' request.image))
    (hrun : request.doRelocations memory count = .ok (true, after))
    (hrun' : (request.withRelocs relocs').doRelocations memory' count = .ok (true, after')) :
    SameImage (imagePhysicalBase memory request.image)
      (imagePhysicalBase memory' request.image) size after after' := by
  induction count generalizing after after' with
  | zero =>
      rw [doRelocations, Except.ok.injEq, Prod.mk.injEq] at hrun hrun'
      rw [← hrun.2, ← hrun'.2]
      exact htwo.bytes
  | succ count ih =>
      obtain ⟨before, hbefore, hstep⟩ := doRelocations_succ_eq_ok hrun
      obtain ⟨before', hbefore', hstep'⟩ := doRelocations_succ_eq_ok hrun'
      have hindex : count < request.relCount := hcount
      have hsame := ih hindex.le
        (hpc.imp (fun hnone => hnone.mono count.le_succ)
          (Or.imp_left fun hnone => hnone.mono count.le_succ))
        hbefore hbefore'
      have hinputs := htwo.inputs count hindex before before' hbefore hbefore' hsame
      refine htwo.step hindex hbefore hbefore' hsame (fun htype => ?_) hstep hstep'
      rcases hpc with hnone | hnone | hbases
      · exact absurd htype (hnone count (Nat.lt_succ_self _) before hbefore)
      · exact absurd (hinputs.type_eq.trans htype)
          (hnone count (Nat.lt_succ_self _) before' hbefore')
      · have hinside := htwo.first.inside count hindex before hbefore
        exact hbases (by omega)

/-- Two accepted tables meet a relative address both or neither. -/
theorem TwoPlacements.noPc32_iff (htwo : request.TwoPlacements relocs' size memory memory')
    (hrun : request.doRelocations memory request.relCount = .ok (true, after))
    (hrun' : (request.withRelocs relocs').doRelocations memory' request.relCount =
      .ok (true, after')) :
    request.NoPc32 memory request.relCount ↔
      (request.withRelocs relocs').NoPc32 memory' request.relCount := by
  constructor
  · intro hnone index hindex before' hbefore'
    obtain ⟨before, _, hbefore, _⟩ := doRelocations_prefix hindex hrun
    have hsame := htwo.run hindex.le (Or.inl (hnone.mono hindex.le)) hbefore hbefore'
    have hinputs := htwo.inputs index hindex before before' hbefore hbefore' hsame
    exact fun htype => hnone index hindex before hbefore (hinputs.type_eq.symm.trans htype)
  · intro hnone index hindex before hbefore
    obtain ⟨before', _, hbefore', _⟩ := doRelocations_prefix hindex hrun'
    have hsame := htwo.run hindex.le (Or.inr (Or.inl (hnone.mono hindex.le))) hbefore hbefore'
    have hinputs := htwo.inputs index hindex before before' hbefore hbefore' hsame
    exact fun htype => hnone index hindex before' hbefore' (hinputs.type_eq.trans htype)

/-! ## Relative addresses -/

/-- The virtual address of the word a relocation changes. -/
def virtualPosition (request : RelocationRequest) (memory : Memory) (index : ℕ) : ℕ :=
  rebase (relocationOffset memory (relocationAt request.relocs index))
    (imageOriginalBase memory request.image) (imageVirtualBase memory request.image)

/-- Every `R_386_PC32` relocation of the run leaves `S + A - P` in its word,
with the virtual address of the word for `P`. -/
def PcRelative (request : RelocationRequest) (memory : Memory) : Prop :=
  ∀ index < request.relCount, ∀ before after address,
    request.doRelocations memory index = .ok (true, before) →
    relocationType before (relocationAt request.relocs index) = r386Pc32 →
    request.symbolAddress before index = .ok (some address) →
    request.doRelocationStep before index = .ok (true, after) →
    load32 after (relocPosition before request.image (relocationAt request.relocs index)) =
      u32 (load32 before
          (relocPosition before request.image (relocationAt request.relocs index)) +
        sub32 address (request.virtualPosition before index))

/-- What an `R_386_PC32` relocation leaves. -/
theorem doRelocationStep_pc32
    (htype : relocationType before (relocationAt request.relocs index) = r386Pc32)
    (haddress : request.symbolAddress before index = .ok (some address))
    (hstep : request.doRelocationStep before index = .ok (true, after)) :
    load32 after (relocPosition before request.image (relocationAt request.relocs index)) =
      u32 (load32 before
          (relocPosition before request.image (relocationAt request.relocs index)) +
        sub32 address
          (relocPosition before request.image (relocationAt request.relocs index))) := by
  rcases doRelocationStep_eq_ok hstep with ⟨hzero, _⟩ | ⟨_, address', value, haddress', hvalue, rfl⟩
  · rw [htype] at hzero
    exact absurd hzero (by decide)
  · obtain rfl : address' = address :=
      Option.some.inj (Except.ok.inj (haddress'.symm.trans haddress))
    have hword : relocatedWord r386Pc32 (relocationSym before (relocationAt request.relocs index))
        (relocPosition before request.image (relocationAt request.relocs index))
        (load32 before
          (relocPosition before request.image (relocationAt request.relocs index)))
        address' (imageOriginalBase before request.image)
        (imageVirtualBase before request.image) =
        some (u32 (load32 before
            (relocPosition before request.image (relocationAt request.relocs index)) +
          sub32 address'
            (relocPosition before request.image (relocationAt request.relocs index)))) := rfl
    rw [htype, hword, Option.some.injEq] at hvalue
    rw [← hvalue]
    exact load32_store32_self (u32_lt _)

theorem sub32_inj_right {left right right' : ℕ} (hright : right < 2 ^ 32)
    (hright' : right' < 2 ^ 32) : sub32 left right = sub32 left right' ↔ right = right' := by
  simp only [sub32, u32]
  omega

/-- The physical address serves as the virtual one only where the two bases
are the same. -/
theorem relocPosition_eq_virtualPosition_iff (request : RelocationRequest) (before : Memory)
    (index : ℕ) :
    relocPosition before request.image (relocationAt request.relocs index) =
        request.virtualPosition before index ↔
      imagePhysicalBase before request.image % 2 ^ 32 =
        imageVirtualBase before request.image % 2 ^ 32 := by
  have horiginal : imageOriginalBase before request.image < 2 ^ 64 := load64_lt
  rw [relocPosition, virtualPosition, rebase_eq_rebase_iff horiginal horiginal]
  omega

/-- The relative addresses are right exactly if there are none, or the image
runs where it lies. -/
theorem Placed.pcRelative_iff (hplaced : request.Placed memory size)
    (hrun : request.doRelocations memory request.relCount = .ok (true, after)) :
    request.PcRelative memory ↔ request.NoPc32 memory request.relCount ∨
      imagePhysicalBase memory request.image % 2 ^ 32 =
        imageVirtualBase memory request.image % 2 ^ 32 := by
  constructor
  · intro hrelative
    refine or_iff_not_imp_right.mpr fun hbases index hindex before hbefore htype => hbases ?_
    obtain ⟨before', middle, hbefore', hstep⟩ := doRelocations_prefix hindex hrun
    obtain ⟨_, rfl⟩ := Prod.mk.inj (Except.ok.inj (hbefore.symm.trans hbefore'))
    have hsame := hplaced.sameBases hindex.le hbefore
    rcases doRelocationStep_eq_ok hstep with ⟨hzero, _⟩ | ⟨_, address, _, haddress, _, _⟩
    · rw [htype] at hzero
      exact absurd hzero (by decide)
    · have hposition : relocPosition before request.image
          (relocationAt request.relocs index) < 2 ^ 32 := rebase_lt _ _ _
      have hvirtual : request.virtualPosition before index < 2 ^ 32 := rebase_lt _ _ _
      have hword := (doRelocationStep_pc32 htype haddress hstep).symm.trans
        (hrelative index hindex before middle address hbefore htype haddress hstep)
      rwa [add_u32_inj (sub32_lt _ _) (sub32_lt _ _), sub32_inj_right hposition hvirtual,
        relocPosition_eq_virtualPosition_iff, hsame.physical, hsame.virtual] at hword
  · rintro hcases index hindex before middle address hbefore htype haddress hstep
    have hsame := hplaced.sameBases hindex.le hbefore
    rcases hcases with hnone | hbases
    · exact absurd htype (hnone index hindex before hbefore)
    · rw [doRelocationStep_pc32 htype haddress hstep,
        (relocPosition_eq_virtualPosition_iff request before index).mpr
          (by rw [hsame.physical, hsame.virtual, hbases])]

theorem Placed.elfElf32DoRelocation_eq_ok (hplaced : request.Placed memory size)
    (haccepted : elfElf32DoRelocation memory request.loadedImages request.image
      request.relCount request.relocs request.neededImages = .ok (true, after)) :
    request.doRelocations memory request.relCount = .ok (true, after) := by
  simp only [elfElf32DoRelocation, ← hplaced.context_eq] at haccepted
  split at haccepted
  · simp at haccepted
  · exact haccepted

/-- The same table is relocated at two places.  The image bytes come out the
same and relative addresses refer to the virtual places of their words, in both
runs, exactly if no `R_386_PC32` entry is met or both images run where they
lie. -/
theorem placementIndependent_iff (htwo : request.TwoPlacements relocs' size memory memory')
    (haccepted : elfElf32DoRelocation memory request.loadedImages request.image
      request.relCount request.relocs request.neededImages = .ok (true, after))
    (haccepted' : elfElf32DoRelocation memory' request.loadedImages request.image
      request.relCount relocs' request.neededImages = .ok (true, after')) :
    (SameImage (imagePhysicalBase memory request.image)
          (imagePhysicalBase memory' request.image) size after after' ∧
        request.PcRelative memory ∧ (request.withRelocs relocs').PcRelative memory') ↔
      request.NoPc32 memory request.relCount ∨
      (imagePhysicalBase memory request.image % 2 ^ 32 =
          imageVirtualBase memory request.image % 2 ^ 32 ∧
        imagePhysicalBase memory' request.image % 2 ^ 32 =
          imageVirtualBase memory request.image % 2 ^ 32) := by
  have hrun := htwo.first.elfElf32DoRelocation_eq_ok haccepted
  have hrun' := htwo.second.elfElf32DoRelocation_eq_ok haccepted'
  have hsecond : (request.withRelocs relocs').PcRelative memory' ↔
      request.NoPc32 memory request.relCount ∨
        imagePhysicalBase memory' request.image % 2 ^ 32 =
          imageVirtualBase memory request.image % 2 ^ 32 := by
    rw [htwo.noPc32_iff hrun hrun', ← htwo.virtualBase]
    exact htwo.second.pcRelative_iff hrun'
  rw [hsecond, htwo.first.pcRelative_iff hrun, ← or_and_left]
  refine and_iff_right_of_imp fun hcases => htwo.run le_rfl ?_ hrun hrun'
  rcases hcases with hnone | ⟨hsame, hsame'⟩
  · exact Or.inl hnone
  · refine Or.inr (Or.inr fun hsize => ?_)
    have hend := htwo.first.end_le
    have hend' : imagePhysicalBase memory' request.image + size ≤ 2 ^ 32 := htwo.second.end_le
    omega

/-! ## An image with an imported symbol -/

/-- An image at `base` that is to run at `0x10000000`, with an executable that defines its
symbol.  The three relocations, in the image itself, are for the address of the symbol, for an
address in the image and for a place behind the symbol. -/
def importerMemory (base : ℕ) : Memory := ofWords
  [(0x1000, 0x2044), (0x1004, 0x2044), (0x2050, 0x6000),
    (0x4020, base), (0x4028, 0x10000000), (0x4050, 0x3000),
    (0x301C, 0x6100), (0x3020, 0x3400),
    (0x601C, 0x6100), (0x6020, 0x6200), (0x6024, 1), (0x6028, 2), (0x602C, 0x6300),
    (0x6030, 0x6400), (0x6100, 0x66), (0x6214, 0x1000), (0x621C, 0x00010012), (0x6300, 1),
    (base + 0x14, 0x20), (base + 0x18, 0x30),
    (base + 0x40, 0x10), (base + 0x44, 0x106), (base + 0x48, 0x14), (base + 0x4C, 0x8),
    (base + 0x50, 0x18), (base + 0x54, 0x101)]

def importer (base : ℕ) : RelocationRequest where
  loadedImages := 0x1000
  image := 0x4000
  context := 0x3000
  relocs := base + 0x40
  relCount := 3
  neededImages := 0x7000

/-- The memory after the first relocations. -/
def importerAfter (base count : ℕ) : Memory :=
  match (importer base).doRelocations (importerMemory base) count with
  | .ok result => result.2
  | .error _ => importerMemory base

theorem importer_before {base index : ℕ} {before : Memory}
    (hbefore : (importer base).doRelocations (importerMemory base) index = .ok (true, before)) :
    before = importerAfter base index := by
  rw [importerAfter, hbefore]

theorem importer_placed {base : ℕ} (hbase : base = 0x100000 ∨ base = 0x200000) :
    (importer base).Placed (importerMemory base) 0x100 where
  context_eq := by rcases hbase with rfl | rfl <;> rfl
  end_le := by rcases hbase with rfl | rfl <;> decide
  record := by rcases hbase with rfl | rfl <;> decide
  inside := by
    intro index hindex before hbefore
    obtain rfl := importer_before hbefore
    have hinside : ∀ index < 3,
        (importer base).imageOffset (importerAfter base index) index + 4 ≤ 0x100 := by
      rcases hbase with rfl | rfl <;> decide +kernel
    exact hinside index hindex

/-- The tables of the executable are apart from the image. -/
structure ImporterTables (memory : Memory) : Prop where
  executable : elf32GetLoaderContext memory 0x2000 = 0x6000
  nbucket : contextNbucket memory 0x6000 = 1
  nchain : contextNchain memory 0x6000 = 2
  bucket : contextBucket memory 0x6000 0 = 1
  chain : contextChain memory 0x6000 1 = 0
  symbol : symbolAt memory 0x6000 1 = 0x6210
  string : symbolName memory 0x6000 0x6210 = 0x6100
  bind : symbolBind memory 0x6210 = 1
  definedIn : symbolSection memory 0x6210 = 1
  value : symbolValue memory 0x6210 = 0x1000
  character : memory 0x6100 = 0x66
  terminator : memory 0x6101 = 0

theorem ImporterTables.nameAt {memory : Memory} (htables : ImporterTables memory) :
    NameAt memory 0x6100 [0x66] :=
  ⟨⟨htables.character, by decide, htables.terminator⟩, by decide⟩

theorem ImporterTables.sameTables {memory memory' : Memory} (htables : ImporterTables memory)
    (htables' : ImporterTables memory') : SameTables memory memory' 0x2000 where
  context := by rw [htables.executable, htables'.executable]
  nbucket := by
    rw [htables.executable, htables'.executable, htables.nbucket, htables'.nbucket]
  bucket := by
    rw [htables.executable, htables'.executable, htables.nbucket, htables.nchain]
    intro index hindex
    obtain rfl := Nat.lt_one_iff.mp hindex
    rw [htables.bucket, htables'.bucket]
    decide
  chain := by
    rw [htables.executable, htables'.executable, htables.nchain]
    intro n hne hn
    obtain rfl : n = 1 := by omega
    rw [htables.chain, htables'.chain]
    decide
  symbols := by
    rw [htables.executable, htables'.executable, htables.nchain]
    intro n hne hn
    obtain rfl : n = 1 := by omega
    refine ⟨by rw [htables.symbol, htables'.symbol], ⟨[0x66], ?_, ?_⟩, ?_, ?_, ?_⟩
    · rw [htables.symbol, htables.string]
      exact htables.nameAt
    · rw [htables'.symbol, htables'.string]
      exact htables'.nameAt
    · rw [htables.symbol, htables'.symbol, htables.bind, htables'.bind]
    · rw [htables.symbol, htables'.symbol, htables.definedIn, htables'.definedIn]
    · rw [htables.symbol, htables'.symbol, htables.value, htables'.value]

theorem importer_tables {base index : ℕ} (hbase : base = 0x100000 ∨ base = 0x200000)
    (hindex : index < 3) : ImporterTables (importerAfter base index) := by
  have hall : ∀ index < 3,
      elf32GetLoaderContext (importerAfter base index) 0x2000 = 0x6000 ∧
      contextNbucket (importerAfter base index) 0x6000 = 1 ∧
      contextNchain (importerAfter base index) 0x6000 = 2 ∧
      contextBucket (importerAfter base index) 0x6000 0 = 1 ∧
      contextChain (importerAfter base index) 0x6000 1 = 0 ∧
      symbolAt (importerAfter base index) 0x6000 1 = 0x6210 ∧
      symbolName (importerAfter base index) 0x6000 0x6210 = 0x6100 ∧
      symbolBind (importerAfter base index) 0x6210 = 1 ∧
      symbolSection (importerAfter base index) 0x6210 = 1 ∧
      symbolValue (importerAfter base index) 0x6210 = 0x1000 ∧
      importerAfter base index 0x6100 = 0x66 ∧ importerAfter base index 0x6101 = 0 := by
    rcases hbase with rfl | rfl <;> decide +kernel
  obtain ⟨h1, h2, h3, h4, h5, h6, h7, h8, h9, h10, h11, h12⟩ := hall index hindex
  exact ⟨h1, h2, h3, h4, h5, h6, h7, h8, h9, h10, h11, h12⟩

/-- The symbol search of every relocation looks into the executable only. -/
theorem importer_search {index : ℕ} (hindex : index < 3) :
    relocationSym (importerAfter 0x100000 index)
        (relocationAt (importer 0x100000).relocs index) ≠ 0 →
      ((importer 0x100000).symbolSearch (importerAfter 0x100000 index) index).1 = [0x2000] ∧
      symbolName (importerAfter 0x100000 index) 0x3000 (symbolAt (importerAfter 0x100000 index)
        0x3000 (relocationSym (importerAfter 0x100000 index)
          (relocationAt (importer 0x100000).relocs index))) = 0x6100 ∧
      symbolName (importerAfter 0x200000 index) 0x3000 (symbolAt (importerAfter 0x200000 index)
        0x3000 (relocationSym (importerAfter 0x100000 index)
          (relocationAt (importer 0x100000).relocs index))) = 0x6100 := by
  revert index
  decide +kernel

theorem importer_twoPlacements :
    (importer 0x100000).TwoPlacements 0x200040 0x100 (importerMemory 0x100000)
      (importerMemory 0x200000) where
  first := importer_placed (Or.inl rfl)
  second := importer_placed (Or.inr rfl)
  virtualBase := by decide
  originalBase := by decide
  bytes := by
    rw [SameImage]
    decide +kernel
  inputs := by
    intro index hindex before before' hbefore hbefore' _
    obtain rfl := importer_before hbefore
    obtain rfl := @importer_before 0x200000 index before' hbefore'
    have hfields : ∀ index < 3,
        imageOriginalBase (importerAfter 0x200000 index) 0x4000 =
          imageOriginalBase (importerAfter 0x100000 index) 0x4000 ∧
        imageVirtualBase (importerAfter 0x200000 index) 0x4000 =
          imageVirtualBase (importerAfter 0x100000 index) 0x4000 ∧
        relocationOffset (importerAfter 0x200000 index) (relocationAt 0x200040 index) =
          relocationOffset (importerAfter 0x100000 index) (relocationAt 0x100040 index) ∧
        load32 (importerAfter 0x200000 index) (relocationAt 0x200040 index + 4) =
          load32 (importerAfter 0x100000 index) (relocationAt 0x100040 index + 4) ∧
        elf32GetLoaderContext (importerAfter 0x200000 index) 0x4000 =
          elf32GetLoaderContext (importerAfter 0x100000 index) 0x4000 ∧
        contextHasSymbolic (importerAfter 0x200000 index)
            (elf32GetLoaderContext (importerAfter 0x100000 index) 0x4000) =
          contextHasSymbolic (importerAfter 0x100000 index)
            (elf32GetLoaderContext (importerAfter 0x100000 index) 0x4000) ∧
        loaderGetExecutable (importerAfter 0x200000 index) 0x1000 =
          loaderGetExecutable (importerAfter 0x100000 index) 0x1000 ∧
        load32 (importerAfter 0x200000 index) 0x7000 =
          load32 (importerAfter 0x100000 index) 0x7000 := by
      decide +kernel
    obtain ⟨horiginal, hvirtual, hoffset, hinfo, hcontext, hsymbolic, hexecutable, hneeded⟩ :=
      hfields index hindex
    have htables := importer_tables (Or.inl rfl) hindex
    have htables' := importer_tables (Or.inr rfl) hindex
    refine ⟨horiginal, hvirtual, hoffset, hinfo, hcontext, hsymbolic, hexecutable, hneeded,
      fun hsym => ?_, fun hsym searched hmem => ?_⟩
    · obtain ⟨-, hname, hname'⟩ := importer_search hindex hsym
      refine ⟨[0x66], ?_, ?_⟩
      · exact hname.symm ▸ htables.nameAt
      · exact hname'.symm ▸ htables'.nameAt
    · obtain ⟨himages, -⟩ := importer_search hindex hsym
      rw [himages, List.mem_singleton] at hmem
      exact hmem ▸ htables.sameTables htables'

theorem importer_noPc32 : (importer 0x100000).NoPc32 (importerMemory 0x100000) 3 := by
  intro index hindex before hbefore
  obtain rfl := importer_before hbefore
  have htypes : ∀ index < 3, relocationType (importerAfter 0x100000 index)
      (relocationAt (importer 0x100000).relocs index) ≠ r386Pc32 := by
    decide +kernel
  exact htypes index hindex

/-- A table with three relocations, two of them against a symbol of the executable. -/
theorem placementIndependent_iff_importer :
    ∃ after after', SameImage 0x100000 0x200000 0x100 after after' ∧
      (importer 0x100000).PcRelative (importerMemory 0x100000) ∧
      (importer 0x200000).PcRelative (importerMemory 0x200000) :=
  ⟨_, _, (placementIndependent_iff importer_twoPlacements rfl rfl).mpr (Or.inl importer_noPc32)⟩

/-! ## An image with a relative call -/

/-- An image at `base` that is to run at `0x10000000`.  Its only relocation, in
the image itself, is for the relative address at offset `0x10`. -/
def relativeCallMemory (base : ℕ) : Memory := ofWords
  [(0x4020, base), (0x4028, 0x10000000), (0x4050, 0x3000),
    (base + 0x10, 0xFFFFFFFC), (base + 0x40, 0x10), (base + 0x44, 0x2)]

def relativeCall (base : ℕ) : RelocationRequest where
  loadedImages := 0x1000
  image := 0x4000
  context := 0x3000
  relocs := base + 0x40
  relCount := 1
  neededImages := 0x7000

/-- Before the only relocation the memory is as it was. -/
theorem relativeCall_start {base index : ℕ} (hindex : index < 1)
    (hbefore : (relativeCall base).doRelocations (relativeCallMemory base) index =
      .ok (true, before)) : index = 0 ∧ before = relativeCallMemory base := by
  obtain rfl : index = 0 := Nat.lt_one_iff.mp hindex
  rw [doRelocations, Except.ok.injEq, Prod.mk.injEq] at hbefore
  exact ⟨rfl, hbefore.2.symm⟩

theorem relativeCall_placed {base : ℕ} (hbase : base = 0x100000 ∨ base = 0x200000) :
    (relativeCall base).Placed (relativeCallMemory base) 0x100 where
  context_eq := by rcases hbase with rfl | rfl <;> rfl
  end_le := by rcases hbase with rfl | rfl <;> decide
  record := by rcases hbase with rfl | rfl <;> decide
  inside := by
    intro index hindex before hbefore
    obtain ⟨rfl, rfl⟩ := relativeCall_start hindex hbefore
    rcases hbase with rfl | rfl <;> decide

theorem relativeCall_twoPlacements :
    (relativeCall 0x100000).TwoPlacements 0x200040 0x100 (relativeCallMemory 0x100000)
      (relativeCallMemory 0x200000) where
  first := relativeCall_placed (Or.inl rfl)
  second := relativeCall_placed (Or.inr rfl)
  virtualBase := by decide
  originalBase := by decide
  bytes := by
    rw [SameImage]
    decide +kernel
  inputs := by
    intro index hindex before before' hbefore hbefore' _
    obtain ⟨rfl, rfl⟩ := relativeCall_start hindex hbefore
    obtain ⟨_, rfl⟩ := relativeCall_start hindex hbefore'
    have hsym : relocationSym (relativeCallMemory 0x100000)
        (relocationAt (relativeCall 0x100000).relocs 0) = 0 := by decide
    exact
      { originalBase := by decide
        virtualBase := by decide
        offset := by decide
        info := by decide
        context := by decide
        symbolic := by decide
        executable := by decide
        needed := by decide
        names := fun hne => absurd hsym hne
        tables := fun hne => absurd hsym hne }

/-- The word gets `-4 - 0x100010` in one run and `-4 - 0x200010` in the other. -/
theorem relativeCall_depends_on_placement :
    ¬ ∀ (request : RelocationRequest) (relocs' size : ℕ)
      (memory memory' after after' : Memory),
      request.TwoPlacements relocs' size memory memory' →
      elfElf32DoRelocation memory request.loadedImages request.image
        request.relCount request.relocs request.neededImages = .ok (true, after) →
      elfElf32DoRelocation memory' request.loadedImages request.image
        request.relCount relocs' request.neededImages = .ok (true, after') →
      SameImage (imagePhysicalBase memory request.image)
        (imagePhysicalBase memory' request.image) size after after' := by
  intro hall
  have hsame := hall _ _ _ _ _ _ _ relativeCall_twoPlacements rfl rfl 0x12 (by decide)
  exact absurd hsame (by decide)

end RelocationRequest

end GeexOS.Elf
