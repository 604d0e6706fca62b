import GeexOS.Loader.ElfSymbols

/-!
# The order in which images are searched

A symbol is looked up in the importing image if that is symbolic, in the main
executable and then in the needed images.  The loop over the needed images
increments the image pointer, so it leaves the array after the first image.
-/

namespace GeexOS.Elf

open GeexOS.Words
open GeexOS.Halting
open GeexOS.ByteMemory
open GeexOS.Linked

variable {memory : Memory} {image symbol : ℕ} {name : List UInt8} {rest : Search}

/-! ## One image -/

theorem examine_of_defines (hformed : WellFormed memory image)
    (hsymbol : NameAt memory symbol name) (hdefines : Defines memory image name) :
    ∃ s, s ≠ 0 ∧ IsDefinition memory image name s ∧
      examine memory image symbol rest = ([image], .ok s) := by
  rcases elfElf32LookupSymbolInImage_spec hformed hsymbol with
    ⟨s, hne, hdefinition, hlookup⟩ | ⟨hnone, _⟩
  · exact ⟨s, hne, hdefinition, by rw [examine, hlookup]; exact if_pos hne⟩
  · exact absurd hdefines hnone

theorem examine_of_not_defines (hformed : WellFormed memory image)
    (hsymbol : NameAt memory symbol name) (hnone : ¬ Defines memory image name) :
    examine memory image symbol rest = (image :: rest.1, rest.2) := by
  rcases elfElf32LookupSymbolInImage_spec hformed hsymbol with
    ⟨s, _, hdefinition, _⟩ | ⟨_, hlookup⟩
  · exact absurd ⟨s, hdefinition⟩ hnone
  · rw [examine, hlookup]
    exact if_neg (not_not.mpr rfl)

/-- Whatever it finds, a search looks into the image it is told to. -/
theorem mem_examine (memory : Memory) (image symbol : ℕ) (rest : Search) :
    image ∈ (examine memory image symbol rest).1 := by
  unfold examine
  split
  · exact List.mem_singleton_self image
  · split
    · exact List.mem_singleton_self image
    · exact List.mem_cons_self

/-! ## The intended search -/

/-- The search examined only the given images and returned the definition of
the first one that has one, or zero. -/
structure SearchCorrect (memory : Memory) (images : List ℕ) (name : List UInt8)
    (search : Search) : Prop where
  examined : ∀ image ∈ search.1, image ∈ images
  result : (∃ front image back s, images = front ++ image :: back ∧
      (∀ other ∈ front, ¬ Defines memory other name) ∧
      s ≠ 0 ∧ IsDefinition memory image name s ∧ search.2 = .ok s) ∨
    ((∀ image ∈ images, ¬ Defines memory image name) ∧ search.2 = .ok 0)

/-- Examining one more image first. -/
theorem SearchCorrect.examine {images : List ℕ} (hformed : WellFormed memory image)
    (hsymbol : NameAt memory symbol name)
    (hrest : ¬ Defines memory image name → SearchCorrect memory images name rest) :
    SearchCorrect memory (image :: images) name
      (examine memory image symbol rest) := by
  by_cases hdefines : Defines memory image name
  · obtain ⟨s, hne, hdefinition, hsearch⟩ := examine_of_defines hformed hsymbol hdefines
    rw [hsearch]
    refine ⟨fun other hmem => ?_, Or.inl ⟨[], image, images, s, rfl, by simp, hne,
      hdefinition, rfl⟩⟩
    rw [List.mem_singleton.mp hmem]
    exact List.mem_cons_self
  · obtain ⟨hexamined, hresult⟩ := hrest hdefines
    rw [examine_of_not_defines hformed hsymbol hdefines]
    refine ⟨fun other hmem => ?_, ?_⟩
    · rcases List.mem_cons.mp hmem with rfl | hmem
      · exact List.mem_cons_self
      · exact List.mem_cons_of_mem _ (hexamined other hmem)
    · rcases hresult with
        ⟨front, found, back, s, himages, hfront, hne, hdefinition, heq⟩ | ⟨hnone, heq⟩
      · refine Or.inl ⟨image :: front, found, back, s, by rw [himages]; rfl, ?_, hne,
          hdefinition, heq⟩
        intro other hmem
        rcases List.mem_cons.mp hmem with rfl | hmem
        · exact hdefines
        · exact hfront other hmem
      · refine Or.inr ⟨fun other hmem => ?_, heq⟩
        rcases List.mem_cons.mp hmem with rfl | hmem
        · exact hdefines
        · exact hnone other hmem

/-! ## The search as it is -/

/-- The array of needed images: the pointers and a null pointer behind them. -/
structure NeededArray (memory : Memory) (neededImages : ℕ) (needed : List ℕ) : Prop where
  entry : ∀ index (hindex : index < needed.length),
    load32 memory (neededImages + 4 * index) = needed.get ⟨index, hindex⟩
  terminator : load32 memory (neededImages + 4 * needed.length) = 0
  ne_zero : ∀ image ∈ needed, image ≠ 0

/-- The images are blocks of the loader's heap, which puts a size word in front
of every block. -/
structure HeapBlocks (images : List ℕ) : Prop where
  inside : ∀ image ∈ images, image + sizeofLoadedImage < 2 ^ 32
  apart : ∀ left ∈ images, ∀ right ∈ images, left ≠ right →
    left + sizeofLoadedImage + 4 ≤ right ∨ right + sizeofLoadedImage + 4 ≤ left

/-- A call of `elf_elf32lookupSymbol` on well-formed images. -/
structure SymbolRequest where
  memory : Memory
  loadedImages : ℕ
  image : ℕ
  symbol : ℕ
  neededImages : ℕ
  name : List UInt8
  needed : List ℕ
  importer_context : elf32GetLoaderContext memory image ≠ 0
  symbol_name : NameAt memory symbol name
  executable_ne : loaderGetExecutable memory loadedImages ≠ 0
  executable_formed : WellFormed memory (loaderGetExecutable memory loadedImages)
  importer_formed :
    contextHasSymbolic memory (elf32GetLoaderContext memory image) = true →
      WellFormed memory image
  needed_formed : ∀ library ∈ needed, WellFormed memory library
  array : NeededArray memory neededImages needed
  blocks : HeapBlocks (image :: loaderGetExecutable memory loadedImages :: needed)

namespace SymbolRequest

variable (request : SymbolRequest)

def executable : ℕ := loaderGetExecutable request.memory request.loadedImages

def isSymbolic : Bool :=
  contextHasSymbolic request.memory
    (elf32GetLoaderContext request.memory request.image)

/-- The images to search, in order. -/
def images : List ℕ :=
  (if request.isSymbolic then [request.image] else []) ++
    request.executable :: request.needed

def search : Search :=
  elfElf32LookupSymbol request.memory request.loadedImages request.image
    request.symbol request.neededImages

/-- The part of the search that follows the importer and the executable. -/
def neededSearch : Search :=
  neededLoop request.memory request.symbol (2 ^ 32)
    (load32 request.memory request.neededImages)

/-- The loop is not entered, or something found before its second round ends
it. -/
def StopsInTime : Prop :=
  request.needed = [] ∨
    (request.isSymbolic = true ∧ Defines request.memory request.image request.name) ∨
    Defines request.memory request.executable request.name ∨
    ∃ first ∈ request.needed.head?, Defines request.memory first request.name

theorem search_eq :
    request.search =
      if request.isSymbolic then
        examine request.memory request.image request.symbol
          (examine request.memory request.executable request.symbol request.neededSearch)
      else
        examine request.memory request.executable request.symbol request.neededSearch := by
  simp only [search, elfElf32LookupSymbol, request.importer_context, if_false,
    ne_eq, request.executable_ne, not_false_eq_true, if_true, isSymbolic, executable,
    neededSearch]
  rfl

theorem neededSearch_nil (hneeded : request.needed = []) :
    request.neededSearch = ([], .ok 0) := by
  have hterminator := request.array.terminator
  rw [hneeded, List.length_nil, Nat.mul_zero, Nat.add_zero] at hterminator
  rw [neededSearch, hterminator]
  rfl

/-- The second round looks into the bytes behind the first image. -/
theorem neededSearch_cons {first : ℕ} {others : List ℕ}
    (hneeded : request.needed = first :: others) :
    ∃ after : Search, first + sizeofLoadedImage ∈ after.1 ∧
      request.neededSearch = examine request.memory first request.symbol after := by
  have hfirst : load32 request.memory request.neededImages = first := by
    have hentry := request.array.entry 0 (by rw [hneeded]; simp)
    simpa [hneeded] using hentry
  have hmem : first ∈ request.needed := hneeded ▸ List.mem_cons_self
  have hne := request.array.ne_zero first hmem
  have hinside := request.blocks.inside first
    (List.mem_cons_of_mem _ (List.mem_cons_of_mem _ hmem))
  refine ⟨neededLoop request.memory request.symbol (2 ^ 32 - 1)
    (u32 (first + sizeofLoadedImage)), ?_, ?_⟩
  · rw [u32_of_lt hinside, show 2 ^ 32 - 1 = (2 ^ 32 - 2) + 1 from rfl, neededLoop,
      if_neg (by omega)]
    exact mem_examine _ _ _ _
  · rw [neededSearch, hfirst, show 2 ^ 32 = (2 ^ 32 - 1) + 1 from rfl, neededLoop,
      if_neg hne]
    rfl

/-- No image lies right behind another one. -/
theorem behind_notMem {first : ℕ} (hmem : first ∈ request.needed) :
    first + sizeofLoadedImage ∉ request.images := by
  intro hbehind
  have hall : first + sizeofLoadedImage ∈
      request.image :: request.executable :: request.needed := by
    rcases List.mem_append.mp hbehind with himporter | hrest
    · split at himporter
      · rw [List.mem_singleton.mp himporter]
        exact List.mem_cons_self
      · simp at himporter
    · exact List.mem_cons_of_mem _ hrest
  have hfirst : first ∈ request.image :: request.executable :: request.needed :=
    List.mem_cons_of_mem _ (List.mem_cons_of_mem _ hmem)
  have hapart := request.blocks.apart first hfirst _ hall (by simp [sizeofLoadedImage])
  simp only [sizeofLoadedImage] at hapart
  omega

/-- The intended search of the needed images, as far as it is defined by the
images in front. -/
theorem neededSearch_correct
    (hstops : request.needed = [] ∨
      ∃ first ∈ request.needed.head?, Defines request.memory first request.name) :
    SearchCorrect request.memory request.needed request.name request.neededSearch := by
  rcases hstops with hneeded | ⟨first, hfirst, hdefines⟩
  · rw [request.neededSearch_nil hneeded, hneeded]
    exact ⟨by simp, Or.inr ⟨by simp, rfl⟩⟩
  · obtain ⟨others, hneeded⟩ : ∃ others, request.needed = first :: others :=
      ⟨_, List.eq_cons_of_mem_head? hfirst⟩
    obtain ⟨after, _, hsearch⟩ := request.neededSearch_cons hneeded
    have hmem : first ∈ request.needed := hneeded ▸ List.mem_cons_self
    rw [hsearch, hneeded]
    exact .examine (request.needed_formed first hmem) request.symbol_name
      (fun hnone => absurd hdefines hnone)

theorem searchCorrect (hstops : request.StopsInTime) :
    SearchCorrect request.memory request.images request.name request.search := by
  have hglobal : ¬ (request.isSymbolic = true ∧
        Defines request.memory request.image request.name) →
      SearchCorrect request.memory (request.executable :: request.needed) request.name
        (examine request.memory request.executable request.symbol
          request.neededSearch) := by
    intro himporter
    refine .examine request.executable_formed request.symbol_name fun hexecutable => ?_
    refine request.neededSearch_correct ?_
    rcases hstops with hneeded | hsymbolic | hdefines | hfirst
    · exact Or.inl hneeded
    · exact absurd hsymbolic himporter
    · exact absurd hdefines hexecutable
    · exact Or.inr hfirst
  rw [request.search_eq, images]
  cases hsymbolic : request.isSymbolic with
  | false => simpa using hglobal (by simp [hsymbolic])
  | true =>
      simp only [if_true, List.singleton_append]
      refine .examine (request.importer_formed hsymbolic) request.symbol_name
        fun hnone => hglobal ?_
      exact fun himporter => hnone himporter.2

/-- Without a definition in the first needed image or before, the bytes behind
that image are searched as an image. -/
theorem mem_search_of_not_stopsInTime (hstops : ¬ request.StopsInTime) :
    ∃ first ∈ request.needed, first + sizeofLoadedImage ∈ request.search.1 := by
  simp only [StopsInTime, not_or, not_exists, not_and] at hstops
  obtain ⟨hneeded, himporter, hexecutable, hfirst⟩ := hstops
  obtain ⟨first, others, hcons⟩ := List.exists_cons_of_ne_nil hneeded
  have hmem : first ∈ request.needed := hcons ▸ List.mem_cons_self
  have hnone : ¬ Defines request.memory first request.name :=
    hfirst first (by rw [hcons]; rfl)
  obtain ⟨after, hafter, hsearch⟩ := request.neededSearch_cons hcons
  refine ⟨first, hmem, ?_⟩
  have hneededSearch : first + sizeofLoadedImage ∈ request.neededSearch.1 := by
    rw [hsearch, examine_of_not_defines (request.needed_formed first hmem)
      request.symbol_name hnone]
    exact List.mem_cons_of_mem _ hafter
  have hglobal : first + sizeofLoadedImage ∈ (examine request.memory request.executable
      request.symbol request.neededSearch).1 := by
    have hformed : WellFormed request.memory request.executable :=
      request.executable_formed
    rw [examine_of_not_defines hformed request.symbol_name hexecutable]
    exact List.mem_cons_of_mem _ hneededSearch
  rw [request.search_eq]
  cases hsymbolic : request.isSymbolic with
  | false => simpa using hglobal
  | true =>
      simp only [if_true]
      rw [examine_of_not_defines (request.importer_formed hsymbolic) request.symbol_name
        (himporter hsymbolic)]
      exact List.mem_cons_of_mem _ hglobal

theorem not_searchCorrect (hstops : ¬ request.StopsInTime) :
    ¬ SearchCorrect request.memory request.images request.name request.search := by
  intro hcorrect
  obtain ⟨first, hmem, hbehind⟩ := request.mem_search_of_not_stopsInTime hstops
  exact request.behind_notMem hmem (hcorrect.examined _ hbehind)

/-- The search examines the intended images in the intended order exactly if
it stops before the second round of the loop over the needed images. -/
theorem searchCorrect_iff_stopsInTime :
    SearchCorrect request.memory request.images request.name request.search ↔
      request.StopsInTime :=
  ⟨fun hcorrect => by_contra fun hstops => request.not_searchCorrect hstops hcorrect,
    request.searchCorrect⟩

end SymbolRequest

/-! ## Two libraries -/

/-- An image without symbols of its own defines nothing. -/
theorem not_defines_of_nchain_le
    (hnchain : contextNchain memory (elf32GetLoaderContext memory image) ≤ 1) :
    ¬ Defines memory image name := by
  rintro ⟨_, n, hpos, hlt, _⟩
  omega

/-- The executable at `0x2000` and the library at `0x4000` share an empty
symbol table; the library at `0x5000` exports the symbol at `0x8000`. -/
def twoLibrariesMemory : Memory := ofWords
  [(0x1000, 0x2044), (0x1004, 0x2044),
    (0x2050, 0x3000), (0x4050, 0x3000), (0x5050, 0x6000),
    (0x301C, 0x3300), (0x3020, 0x3400), (0x3024, 1), (0x3028, 1), (0x302C, 0x3100),
    (0x3030, 0x3200),
    (0x601C, 0x6100), (0x6020, 0x6200), (0x6024, 1), (0x6028, 2), (0x602C, 0x6300),
    (0x6030, 0x6400),
    (0x6100, 0x66), (0x621C, 0x00010012), (0x6300, 1),
    (0x7000, 0x4000), (0x7004, 0x5000), (0x8000, 0x66)]

theorem emptyTable_wellFormed {library : ℕ}
    (hcontext : elf32GetLoaderContext twoLibrariesMemory library = 0x3000) :
    WellFormed twoLibrariesMemory library := by
  have hnchain : contextNchain twoLibrariesMemory 0x3000 = 1 := by decide
  have hnbucket : contextNbucket twoLibrariesMemory 0x3000 = 1 := by decide
  constructor <;> rw [hcontext]
  · decide
  · decide
  · decide
  · decide
  · intro n hpos hlt
    omega
  · intro bucket hbucket
    obtain rfl : bucket = 0 := by omega
    refine ⟨[], chain_nil.mpr (by decide), fun n => ⟨by simp, ?_⟩⟩
    rintro ⟨hpos, hlt, _⟩
    omega

theorem exportingLibrary_wellFormed : WellFormed twoLibrariesMemory 0x5000 := by
  have hcontext : elf32GetLoaderContext twoLibrariesMemory 0x5000 = 0x6000 := by decide
  have hnchain : contextNchain twoLibrariesMemory 0x6000 = 2 := by decide
  have hnbucket : contextNbucket twoLibrariesMemory 0x6000 = 1 := by decide
  have hname : NameAt twoLibrariesMemory
      (symbolName twoLibrariesMemory 0x6000 (symbolAt twoLibrariesMemory 0x6000 1))
      [0x66] := ⟨⟨by decide, by decide, (by decide : twoLibrariesMemory _ = 0)⟩,
        by decide⟩
  constructor <;> rw [hcontext]
  · decide
  · decide
  · decide
  · decide
  · intro n hpos hlt
    obtain rfl : n = 1 := by omega
    exact ⟨_, hname⟩
  · intro bucket hbucket
    obtain rfl : bucket = 0 := by omega
    refine ⟨[1], chain_cons.mpr ⟨by decide, by decide, chain_nil.mpr (by decide)⟩,
      fun n => ⟨fun hmem => ?_, ?_⟩⟩
    · obtain rfl := List.mem_singleton.mp hmem
      exact ⟨by decide, by decide, _, hname, by rw [hnbucket, Nat.mod_one]⟩
    · rintro ⟨hpos, hlt, _⟩
      obtain rfl : n = 1 := by omega
      exact List.mem_singleton_self 1

/-- The executable asks for a symbol of its second library. -/
def twoLibraries : SymbolRequest where
  memory := twoLibrariesMemory
  loadedImages := 0x1000
  image := 0x2000
  symbol := 0x8000
  neededImages := 0x7000
  name := [0x66]
  needed := [0x4000, 0x5000]
  importer_context := by decide
  symbol_name := ⟨⟨by decide, by decide, (by decide : twoLibrariesMemory _ = 0)⟩,
    by decide⟩
  executable_ne := by decide
  executable_formed := emptyTable_wellFormed (by decide)
  importer_formed := fun hsymbolic => absurd hsymbolic (by decide)
  needed_formed := by
    intro library hmem
    simp only [List.mem_cons, List.not_mem_nil, or_false] at hmem
    rcases hmem with rfl | rfl
    · exact emptyTable_wellFormed (by decide)
    · exact exportingLibrary_wellFormed
  array :=
    { entry := by
        intro index hindex
        have hcases : index = 0 ∨ index = 1 := by
          simp only [List.length_cons, List.length_nil] at hindex
          omega
        rcases hcases with rfl | rfl
        · exact (by decide : load32 twoLibrariesMemory 0x7000 = 0x4000)
        · exact (by decide : load32 twoLibrariesMemory 0x7004 = 0x5000)
      terminator := by decide
      ne_zero := by decide }
  blocks := by
    have hexecutable : loaderGetExecutable twoLibrariesMemory 0x1000 = 0x2000 := by
      decide
    rw [hexecutable]
    exact ⟨by decide, by decide⟩

theorem twoLibraries_not_searchCorrect :
    ¬ ∀ request : SymbolRequest,
      SearchCorrect request.memory request.images request.name request.search := by
  intro hall
  refine twoLibraries.not_searchCorrect ?_ (hall twoLibraries)
  rintro (hneeded | ⟨hsymbolic, _⟩ | hexecutable | ⟨first, hfirst, hdefines⟩)
  · exact absurd hneeded (by decide)
  · exact absurd hsymbolic (by decide)
  · exact not_defines_of_nchain_le (by decide) hexecutable
  · obtain rfl : first = 0x4000 := by simpa [twoLibraries] using hfirst.symm
    exact not_defines_of_nchain_le (by decide) hdefines

end GeexOS.Elf
