import GeexOS.Loader.ElfSymbols

/-!
# Relocations against symbols of other images

A relocation adds a base to the value of the symbol it is resolved to.  The
base is the importing image's, whichever image the symbol was found in.
-/

namespace GeexOS.Elf

open GeexOS.Words
open GeexOS.Halting
open GeexOS.ByteMemory

variable {memory memory' : Memory}

def r386_32 : ℕ := 1
def r386Pc32 : ℕ := 2
def r386GlobDat : ℕ := 6
def r386JmpSlot : ℕ := 7
def r386Relative : ℕ := 8

/-- Subtraction of 64-bit unsigned objects, with wrap-around. -/
def sub64 (left right : ℕ) : ℕ := u64 (left + (2 ^ 64 - u64 right))

/-- `relocs + i`. -/
def relocationAt (relocs index : ℕ) : ℕ := u32 (relocs + 8 * index)

def relocationOffset (memory : Memory) (relocation : ℕ) : ℕ := load32 memory relocation

/-- `ELF32_R_TYPE(r_info)`. -/
def relocationType (memory : Memory) (relocation : ℕ) : ℕ :=
  load32 memory (relocation + 4) % 256

/-- `ELF32_R_SYM(r_info)`. -/
def relocationSym (memory : Memory) (relocation : ℕ) : ℕ :=
  load32 memory (relocation + 4) / 256

/-- `(address - OriginalBase) + base` in 64 bits, cut to an `Elf32_Addr`. -/
def rebase (address originalBase base : ℕ) : ℕ :=
  u32 (u64 (sub64 address originalBase + base))

/-- The word a relocation changes. -/
def relocPosition (memory : Memory) (image relocation : ℕ) : ℕ :=
  rebase (relocationOffset memory relocation) (imageOriginalBase memory image)
    (imagePhysicalBase memory image)

/-- The loader's list of images, the importing image with its relocations, and
the array of images it needs.  The context of the image is read once, before
the loop. -/
structure RelocationRequest where
  loadedImages : ℕ
  image : ℕ
  context : ℕ
  relocs : ℕ
  relCount : ℕ
  neededImages : ℕ

namespace RelocationRequest

variable (request : RelocationRequest)

/-- The search for the symbol that relocation `index` refers to. -/
def symbolSearch (memory : Memory) (index : ℕ) : Search :=
  let sym := relocationSym memory (relocationAt request.relocs index)
  elfElf32LookupSymbol memory request.loadedImages request.image
    (symbolName memory request.context (symbolAt memory request.context sym))
    request.neededImages

/-- The symbol address of a relocation; none if the symbol is not found. -/
def symbolAddress (memory : Memory) (index : ℕ) : Outcome (Option ℕ) :=
  if relocationSym memory (relocationAt request.relocs index) = 0 then .ok (some 0)
  else do
    let resolvedSymbol ← (request.symbolSearch memory index).2
    if resolvedSymbol = 0 then .ok none
    else
      .ok (some (rebase (symbolValue memory resolvedSymbol)
        (imageOriginalBase memory request.image)
        (imageVirtualBase memory request.image)))

/-- `*(Elf32_Addr*)relocPosition += value`. -/
def addAt (memory : Memory) (position value : ℕ) : Memory :=
  store32 memory position (u32 (load32 memory position + value))

/-- The `switch` over the relocation types; none for an error. -/
def applyType (memory : Memory) (type sym position symbolAddress : ℕ) : Option Memory :=
  if type = r386JmpSlot then some (store32 memory position symbolAddress)
  else if type = r386GlobDat then some (store32 memory position symbolAddress)
  else if type = r386Relative then
    if sym ≠ 0 then none
    else
      some (addAt memory position
        (u32 (sub64 (imageVirtualBase memory request.image)
          (imageOriginalBase memory request.image))))
  else if type = r386_32 then some (addAt memory position symbolAddress)
  else if type = r386Pc32 then some (addAt memory position (sub32 symbolAddress position))
  else none

/-- One iteration of the loop: whether it goes on, and the memory. -/
def doRelocationStep (memory : Memory) (index : ℕ) : Outcome (Bool × Memory) :=
  let relocation := relocationAt request.relocs index
  let type := relocationType memory relocation
  if type = 0 then .ok (true, memory)
  else do
    let address ← request.symbolAddress memory index
    match address with
    | none => .ok (false, memory)
    | some address =>
        match request.applyType memory type (relocationSym memory relocation)
          (relocPosition memory request.image relocation) address with
        | none => .ok (false, memory)
        | some memory' => .ok (true, memory')

/-- The loop of `elf_elf32doRelocation` over the first relocations. -/
def doRelocations (memory : Memory) : (count : ℕ) → Outcome (Bool × Memory)
  | 0 => .ok (true, memory)
  | count + 1 => do
      let (success, memory') ← doRelocations memory count
      if success then request.doRelocationStep memory' count
      else .ok (false, memory')

end RelocationRequest

/-- `elf_elf32doRelocation`. -/
def elfElf32DoRelocation (memory : Memory)
    (loadedImages image relCount relocs neededImages : ℕ) : Outcome (Bool × Memory) :=
  let context := elf32GetLoaderContext memory image
  if context = 0 then .ok (false, memory)
  else
    RelocationRequest.doRelocations
      ⟨loadedImages, image, context, relocs, relCount, neededImages⟩ memory relCount

namespace RelocationRequest

variable (request : RelocationRequest)

/-! ## Resolved symbols -/

/-- Relocation `index` is of one of the three types and refers to a symbol
that is found in the image `definer`. -/
structure Resolves (memory : Memory) (index symbol definer : ℕ) : Prop where
  type : relocationType memory (relocationAt request.relocs index) = r386JmpSlot ∨
    relocationType memory (relocationAt request.relocs index) = r386GlobDat ∨
    relocationType memory (relocationAt request.relocs index) = r386_32
  sym_ne : relocationSym memory (relocationAt request.relocs index) ≠ 0
  symbol_ne : symbol ≠ 0
  found : (request.symbolSearch memory index).2 = .ok symbol
  definer : (request.symbolSearch memory index).1.getLast? = some definer

/-- What the relocated word has to hold: the run-time address of the
definition, added to the old word for `R_386_32`. -/
def expectedWord (memory : Memory) (index symbol definer : ℕ) : ℕ :=
  let relocation := relocationAt request.relocs index
  let address := rebase (symbolValue memory symbol) (imageOriginalBase memory definer)
    (imageVirtualBase memory definer)
  if relocationType memory relocation = r386_32 then
    u32 (load32 memory (relocPosition memory request.image relocation) + address)
  else address

/-- The relocation stores (or adds) the run-time address of the definition. -/
def StoresDefinition (memory : Memory) (index : ℕ) : Prop :=
  ∀ symbol definer, request.Resolves memory index symbol definer →
    ∃ memory', request.doRelocationStep memory index = .ok (true, memory') ∧
      load32 memory'
          (relocPosition memory request.image (relocationAt request.relocs index)) =
        request.expectedWord memory index symbol definer

/-- Importer and definer are displaced by the same distance. -/
def SameDisplacement (memory : Memory) (index : ℕ) : Prop :=
  ∀ symbol definer, request.Resolves memory index symbol definer →
    (imageVirtualBase memory definer + imageOriginalBase memory request.image) % 2 ^ 32 =
      (imageVirtualBase memory request.image + imageOriginalBase memory definer) % 2 ^ 32

end RelocationRequest

theorem rebase_lt (address originalBase base : ℕ) :
    rebase address originalBase base < 2 ^ 32 := u32_lt _

theorem rebase_eq {address original base : ℕ} (horiginal : original < 2 ^ 64) :
    rebase address original base = (address + base + (2 ^ 64 - original)) % 2 ^ 32 := by
  have hdvd : 2 ^ 32 ∣ 2 ^ 64 := pow_dvd_pow 2 (by norm_num)
  have hsum : address + (2 ^ 64 - original) + base =
      address + base + (2 ^ 64 - original) := by ring
  rw [rebase, sub64, u64_of_lt horiginal, u32, u64, u64, Nat.mod_add_mod,
    Nat.mod_mod_of_dvd _ hdvd, hsum]

/-- Two rebased addresses agree exactly if the displacements do. -/
theorem rebase_eq_rebase_iff {address original base original' base' : ℕ}
    (horiginal : original < 2 ^ 64) (horiginal' : original' < 2 ^ 64) :
    rebase address original base = rebase address original' base' ↔
      (base' + original) % 2 ^ 32 = (base + original') % 2 ^ 32 := by
  rw [rebase_eq horiginal, rebase_eq horiginal']
  omega

theorem add_u32_inj {word left right : ℕ} (hleft : left < 2 ^ 32)
    (hright : right < 2 ^ 32) :
    u32 (word + left) = u32 (word + right) ↔ left = right := by
  simp only [u32]
  omega

namespace RelocationRequest

variable {request : RelocationRequest} {index symbol definer : ℕ}

theorem Resolves.symbolAddress_eq
    (hresolves : request.Resolves memory index symbol definer) :
    request.symbolAddress memory index =
      .ok (some (rebase (symbolValue memory symbol)
        (imageOriginalBase memory request.image)
        (imageVirtualBase memory request.image))) := by
  rw [symbolAddress, if_neg hresolves.sym_ne, hresolves.found, ok_bind,
    if_neg hresolves.symbol_ne]

/-- The three types store a word or add to it. -/
theorem applyType_eq (request : RelocationRequest) (memory : Memory)
    (sym position address : ℕ) {type : ℕ}
    (htype : type = r386JmpSlot ∨ type = r386GlobDat ∨ type = r386_32) :
    request.applyType memory type sym position address =
      some (store32 memory position
        (if type = r386_32 then u32 (load32 memory position + address) else address)) := by
  rcases htype with rfl | rfl | rfl <;> rfl

/-- What the step leaves in the relocated word. -/
theorem Resolves.step (hresolves : request.Resolves memory index symbol definer) :
    ∃ memory', request.doRelocationStep memory index = .ok (true, memory') ∧
      load32 memory'
          (relocPosition memory request.image (relocationAt request.relocs index)) =
        request.expectedWord memory index symbol request.image := by
  have hzero : relocationType memory (relocationAt request.relocs index) ≠ 0 := by
    rcases hresolves.type with htype | htype | htype <;> rw [htype] <;> decide
  have happly := applyType_eq request memory
    (relocationSym memory (relocationAt request.relocs index))
    (relocPosition memory request.image (relocationAt request.relocs index))
    (rebase (symbolValue memory symbol) (imageOriginalBase memory request.image)
      (imageVirtualBase memory request.image)) hresolves.type
  refine ⟨_, by
    rw [doRelocationStep]
    simp only [hzero, if_false, hresolves.symbolAddress_eq, ok_bind, happly]
    rfl, ?_⟩
  rw [expectedWord]
  apply load32_store32_self
  split
  · exact u32_lt _
  · exact rebase_lt _ _ _

theorem expectedWord_eq_iff (request : RelocationRequest) (memory : Memory)
    (index symbol definer : ℕ) :
    request.expectedWord memory index symbol request.image =
        request.expectedWord memory index symbol definer ↔
      (imageVirtualBase memory definer + imageOriginalBase memory request.image) %
          2 ^ 32 =
        (imageVirtualBase memory request.image + imageOriginalBase memory definer) %
          2 ^ 32 := by
  have horiginal : imageOriginalBase memory request.image < 2 ^ 64 := load64_lt
  have hdefiner : imageOriginalBase memory definer < 2 ^ 64 := load64_lt
  rw [← rebase_eq_rebase_iff horiginal hdefiner]
  simp only [expectedWord]
  split
  · exact add_u32_inj (rebase_lt _ _ _) (rebase_lt _ _ _)
  · exact Iff.rfl

theorem storesDefinition_iff (request : RelocationRequest) (before : Memory)
    (index : ℕ) :
    request.StoresDefinition before index ↔ request.SameDisplacement before index := by
  constructor
  · intro hstores symbol definer hresolves
    obtain ⟨memory', hstep, hword⟩ := hstores symbol definer hresolves
    obtain ⟨memory'', hstep', hword'⟩ := hresolves.step
    rw [hstep, Except.ok.injEq, Prod.mk.injEq] at hstep'
    rw [← hstep'.2, hword] at hword'
    exact (request.expectedWord_eq_iff before index symbol definer).mp hword'.symm
  · intro hsame symbol definer hresolves
    obtain ⟨memory', hstep, hword⟩ := hresolves.step
    refine ⟨memory', hstep, hword.trans ?_⟩
    exact (request.expectedWord_eq_iff before index symbol definer).mpr
      (hsame symbol definer hresolves)

/-- All relocations of a table against symbols store the definition's address
exactly if, in the state before each of them, importer and definer have the
same displacement. -/
theorem all_storeDefinition_iff (request : RelocationRequest) (memory : Memory) :
    (∀ index < request.relCount, ∀ before,
        request.doRelocations memory index = .ok (true, before) →
        request.StoresDefinition before index) ↔
      ∀ index < request.relCount, ∀ before,
        request.doRelocations memory index = .ok (true, before) →
        request.SameDisplacement before index :=
  forall₂_congr fun _ _ => forall₂_congr fun _ _ =>
    storesDefinition_iff _ _ _

/-- A library at its linked address imports a symbol of the executable, which
was linked at zero and moved to `0x10000000`. -/
def movedExecutableMemory : Memory := ofWords
  [(0x1000, 0x2044), (0x1004, 0x2044),
    (0x2028, 0x10000000), (0x2050, 0x6000),
    (0x4020, 0x9000), (0x4028, 0x20000000), (0x4030, 0x20000000), (0x4050, 0x3000),
    (0x301C, 0x6100), (0x3020, 0x3400),
    (0x601C, 0x6100), (0x6020, 0x6200), (0x6024, 1), (0x6028, 2), (0x602C, 0x6300),
    (0x6030, 0x6400),
    (0x6100, 0x66), (0x6214, 0x1000), (0x621C, 0x00010012), (0x6300, 1),
    (0xA000, 0x20000010), (0xA004, 0x106)]

/-- One `R_386_GLOB_DAT` relocation. -/
def movedExecutable : RelocationRequest where
  loadedImages := 0x1000
  image := 0x4000
  context := 0x3000
  relocs := 0xA000
  relCount := 1
  neededImages := 0x7000

/-- The word gets `0x1000`, while the definition is at `0x10001000`. -/
theorem movedExecutable_not_storesDefinition :
    ¬ ∀ (request : RelocationRequest) (memory : Memory), ∀ index < request.relCount,
      ∀ before, request.doRelocations memory index = .ok (true, before) →
        request.StoresDefinition before index := by
  intro hall
  have hstores := hall movedExecutable movedExecutableMemory 0 (by decide) _ rfl
  have hsame := (storesDefinition_iff _ _ _).mp hstores 0x6210 0x2000
    ⟨Or.inr (Or.inl (by decide)), by decide, by decide, rfl, rfl⟩
  exact absurd hsame (by decide)

end RelocationRequest

end GeexOS.Elf
