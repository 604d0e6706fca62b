import GeexOS.Loader.ElfSearch

/-!
# Hash tables of loaded images

Linking an image records where its `DT_HASH` table lies.  The lookup hashes the
name, walks the chain of one bucket and must find every exported symbol, so the
hash has to be the one by which the table was built.
-/

namespace GeexOS.Elf

open GeexOS.Words
open GeexOS.Halting
open GeexOS.ByteMemory
open GeexOS.Linked

variable {memory : Memory} {image symbol : ℕ} {name : List UInt8}

/-! ## The hash function of the ABI -/

/-- One character of the hash function of the System V ABI, on 32-bit unsigned
integers: the top nibble is folded in only if it is set. -/
def abiHashStep (h : ℕ) (character : UInt8) : ℕ :=
  let h := u32 (h * 16 + character.toNat)
  let g := h &&& 0xF0000000
  let folded := if g ≠ 0 then h ^^^ (g / 2 ^ 24) else h
  folded &&& (0xFFFFFFFF ^^^ g)

def abiHash (characters : List UInt8) : ℕ := characters.foldl abiHashStep 0

theorem testBit_topNibble (bit : ℕ) :
    Nat.testBit 0xF0000000 bit = decide (28 ≤ bit ∧ bit < 32) := by
  have hmask : 0xF0000000 = (2 ^ 4 - 1) <<< 28 := by decide
  rw [hmask, Nat.testBit_shiftLeft, Nat.testBit_two_pow_sub_one]
  by_cases hlow : 28 ≤ bit
  · have hrange : bit - 28 < 4 ↔ bit < 32 := by omega
    simp [hlow, hrange]
  · simp [hlow]

theorem testBit_word (bit : ℕ) : Nat.testBit 0xFFFFFFFF bit = decide (bit < 32) := by
  rw [show (0xFFFFFFFF : ℕ) = 2 ^ 32 - 1 from rfl, Nat.testBit_two_pow_sub_one]

/-- Folding an empty nibble changes nothing, so it need not be guarded, and the
nibble has no bit that its shifted copy has. -/
theorem fold_eq {h : ℕ} (hlt : h < 2 ^ 32) :
    (h ^^^ (h &&& 0xF0000000)) ^^^ ((h &&& 0xF0000000) / 2 ^ 24) =
      (if h &&& 0xF0000000 ≠ 0 then h ^^^ ((h &&& 0xF0000000) / 2 ^ 24) else h) &&&
        (0xFFFFFFFF ^^^ (h &&& 0xF0000000)) := by
  have hguard : (if h &&& 0xF0000000 ≠ 0 then h ^^^ ((h &&& 0xF0000000) / 2 ^ 24) else h) =
      h ^^^ ((h &&& 0xF0000000) / 2 ^ 24) := by
    split
    · rfl
    · rename_i hzero
      rw [not_not.mp hzero, Nat.zero_div, Nat.xor_zero]
  rw [hguard]
  apply Nat.eq_of_testBit_eq
  intro bit
  simp only [Nat.testBit_xor, Nat.testBit_and, Nat.testBit_div_two_pow, testBit_topNibble,
    testBit_word]
  by_cases hword : bit < 32
  · by_cases hnibble : 28 ≤ bit
    · have hshifted : ¬ bit + 24 < 32 := by omega
      cases h.testBit bit <;> simp [hword, hnibble, hshifted]
    · simp [hword, hnibble]
  · have hbit : h.testBit bit = false :=
      Nat.testBit_lt_two_pow (hlt.trans_le (Nat.pow_le_pow_right (by omega) (by omega)))
    have hshifted : ¬ bit + 24 < 32 := by omega
    simp [hbit, hword, hshifted]

theorem elfhashStep_eq_abiHashStep (h : ℕ) (character : UInt8) :
    elfhashStep h character = abiHashStep h character :=
  fold_eq (u32_lt _)

/-- Folding the nibble unconditionally gives the hash of the ABI for every string. -/
theorem hashOf_eq_abiHash (characters : List UInt8) :
    hashOf characters = abiHash characters := by
  have hstep : elfhashStep = abiHashStep := by
    funext h character
    exact elfhashStep_eq_abiHashStep h character
  rw [hashOf, abiHash, hstep]

/-! ## The table of an image -/

/-- An address of the file, relocated as `elf_linkElf32File` does. -/
def imageAddress (memory : Memory) (image pointer : ℕ) : ℕ :=
  u32 (imagePhysicalBase memory image + Words.sub64 pointer (imageOriginalBase memory image))

/-- The `DT_HASH` case of `elf_linkElf32File`. -/
def linkHash (memory : Memory) (image context pointer : ℕ) : Memory :=
  let table := imageAddress memory image pointer
  let memory := store32 memory (context + 36) (load32 memory table)
  let memory := store32 memory (context + 40) (load32 memory (table + 4))
  let memory := store32 memory (context + 44) (u32 (table + 8))
  store32 memory (context + 48) (u32 (table + 8 + contextNbucket memory context * 4))

section DtHash

variable {context pointer : ℕ}

/-- The context lies outside the counts of the table. -/
def OutsideTable (memory : Memory) (image context pointer : ℕ) : Prop :=
  context + 52 ≤ imageAddress memory image pointer ∨
    imageAddress memory image pointer + 8 ≤ context + 36

theorem linkHash_nbucket :
    contextNbucket (linkHash memory image context pointer) context =
      load32 memory (imageAddress memory image pointer) := by
  rw [contextNbucket, linkHash, load32_store32_of_disjoint (by omega),
    load32_store32_of_disjoint (by omega), load32_store32_of_disjoint (by omega),
    load32_store32_self load32_lt]

theorem linkHash_nchain (houtside : OutsideTable memory image context pointer) :
    contextNchain (linkHash memory image context pointer) context =
      load32 memory (imageAddress memory image pointer + 4) := by
  rw [OutsideTable] at houtside
  rw [contextNchain, linkHash, load32_store32_of_disjoint (by omega),
    load32_store32_of_disjoint (by omega), load32_store32_self load32_lt,
    load32_store32_of_disjoint (by omega)]

/-- The buckets follow the two counts of the table. -/
theorem linkHash_bucket (index : ℕ) :
    contextBucket (linkHash memory image context pointer) context index =
      load32 (linkHash memory image context pointer)
        (u32 (imageAddress memory image pointer + 8 + 4 * index)) := by
  have hpointer : load32 (linkHash memory image context pointer) (context + 44) =
      u32 (imageAddress memory image pointer + 8) := by
    rw [linkHash, load32_store32_of_disjoint (by omega), load32_store32_self (u32_lt _)]
  rw [contextBucket, hpointer]
  simp only [u32, Nat.mod_add_mod]

/-- The chains follow the buckets. -/
theorem linkHash_chain (index : ℕ) :
    contextChain (linkHash memory image context pointer) context index =
      load32 (linkHash memory image context pointer)
        (u32 (imageAddress memory image pointer + 8 +
          4 * (load32 memory (imageAddress memory image pointer) + index))) := by
  have hpointer : load32 (linkHash memory image context pointer) (context + 48) =
      u32 (imageAddress memory image pointer + 8 +
        load32 memory (imageAddress memory image pointer) * 4) := by
    rw [linkHash, load32_store32_self (u32_lt _), contextNbucket,
      load32_store32_of_disjoint (by omega), load32_store32_of_disjoint (by omega),
      load32_store32_self load32_lt]
  have hposition : ∀ buckets, imageAddress memory image pointer + 8 + buckets * 4 + 4 * index =
      imageAddress memory image pointer + 8 + 4 * (buckets + index) := by
    intro buckets
    ring
  rw [contextChain, hpointer]
  simp only [u32, Nat.mod_add_mod, hposition]

end DtHash

/-! ## Strings in the address space -/

theorem CString.bytes {address : ℕ} {characters : List UInt8}
    (hstring : CString memory address characters) (haddress : address < 2 ^ 32) :
    (∀ index < characters.length, memory (u32 (address + index)) ≠ 0) ∧
      memory (u32 (address + characters.length)) = 0 := by
  induction characters generalizing address with
  | nil =>
      refine ⟨fun index hindex => absurd hindex (Nat.not_lt_zero index), ?_⟩
      rw [List.length_nil, Nat.add_zero, u32_of_lt haddress]
      exact hstring
  | cons character rest ih =>
      obtain ⟨hfirst, hne, hrest⟩ := hstring
      obtain ⟨hbytes, hend⟩ := ih hrest (u32_lt _)
      have hshift : ∀ index, u32 (u32 (address + 1) + index) = u32 (address + (index + 1)) := by
        intro index
        simp only [u32, Nat.mod_add_mod]
        congr 1
        omega
      refine ⟨fun index hindex => ?_, ?_⟩
      · cases index with
        | zero =>
            rw [Nat.add_zero, u32_of_lt haddress, hfirst]
            exact hne
        | succ index =>
            rw [← hshift]
            exact hbytes index (Nat.lt_of_succ_lt_succ hindex)
      · rw [List.length_cons, ← hshift]
        exact hend

/-- A string that were as long as the address space would meet its own
terminator before its end. -/
theorem CString.nameAt {address : ℕ} {characters : List UInt8}
    (hstring : CString memory address characters) (haddress : address < 2 ^ 32) :
    NameAt memory address characters := by
  refine ⟨hstring, ?_⟩
  by_contra hlong
  obtain ⟨hbytes, hend⟩ := hstring.bytes haddress
  have hwrapped : u32 (address + (characters.length - 2 ^ 32)) =
      u32 (address + characters.length) := by
    simp only [u32]
    omega
  refine hbytes (characters.length - 2 ^ 32) (by omega) ?_
  rw [hwrapped]
  exact hend

/-! ## Lookup -/

/-- Each chain is finite, ends in zero and lists exactly the symbols whose name
has its bucket by the hash of the ABI; no symbol lies at the null address. -/
structure HashTable (memory : Memory) (image : ℕ) : Prop where
  context_ne : elf32GetLoaderContext memory image ≠ 0
  nbucket_pos : 0 < contextNbucket memory (elf32GetLoaderContext memory image)
  symbol_ne : ∀ n, 0 < n → n < contextNchain memory (elf32GetLoaderContext memory image) →
    symbolAt memory (elf32GetLoaderContext memory image) n ≠ 0
  chains : ∀ bucket < contextNbucket memory (elf32GetLoaderContext memory image),
    ∃ cells, Chain (contextChain memory (elf32GetLoaderContext memory image)) 0
        (contextBucket memory (elf32GetLoaderContext memory image) bucket) cells ∧
      ∀ n, n ∈ cells ↔ 0 < n ∧
        n < contextNchain memory (elf32GetLoaderContext memory image) ∧
        ∃ name, CString memory
            (symbolName memory (elf32GetLoaderContext memory image)
              (symbolAt memory (elf32GetLoaderContext memory image) n)) name ∧
          abiHash name % contextNbucket memory (elf32GetLoaderContext memory image) =
            bucket

/-- What a linker puts into the section of `DT_HASH`: the two counts, the buckets, and the
chains behind them. -/
structure HashSection (memory : Memory) (context table : ℕ) : Prop where
  nbucket_pos : 0 < load32 memory table
  symbol_ne : ∀ n, 0 < n → n < load32 memory (table + 4) → symbolAt memory context n ≠ 0
  chains : ∀ bucket < load32 memory table,
    ∃ cells, Chain
        (fun n => load32 memory (u32 (table + 8 + 4 * (load32 memory table + n)))) 0
        (load32 memory (u32 (table + 8 + 4 * bucket))) cells ∧
      ∀ n, n ∈ cells ↔ 0 < n ∧ n < load32 memory (table + 4) ∧
        ∃ name, CString memory (symbolName memory context (symbolAt memory context n)) name ∧
          abiHash name % load32 memory table = bucket

/-- The `DT_HASH` case leaves the table of the section in the context of the image. -/
theorem linkHash_hashTable {context pointer : ℕ}
    (hcontext : elf32GetLoaderContext (linkHash memory image context pointer) image = context)
    (hne : context ≠ 0) (houtside : OutsideTable memory image context pointer)
    (hsection : HashSection (linkHash memory image context pointer) context
      (imageAddress memory image pointer)) :
    HashTable (linkHash memory image context pointer) image := by
  have hcount : ∀ offset, offset + 4 ≤ 8 →
      load32 (linkHash memory image context pointer)
        (imageAddress memory image pointer + offset) =
          load32 memory (imageAddress memory image pointer + offset) := by
    intro offset hoffset
    rw [OutsideTable] at houtside
    rw [linkHash, load32_store32_of_disjoint (by omega), load32_store32_of_disjoint (by omega),
      load32_store32_of_disjoint (by omega), load32_store32_of_disjoint (by omega)]
  have hnbucket : load32 (linkHash memory image context pointer)
      (imageAddress memory image pointer) =
        contextNbucket (linkHash memory image context pointer) context :=
    (hcount 0 (by decide)).trans linkHash_nbucket.symm
  have hnchain := (hcount 4 le_rfl).trans (linkHash_nchain houtside).symm
  have hchain : contextChain (linkHash memory image context pointer) context = fun n =>
      load32 (linkHash memory image context pointer)
        (u32 (imageAddress memory image pointer + 8 +
          4 * (load32 (linkHash memory image context pointer)
            (imageAddress memory image pointer) + n))) := by
    funext n
    rw [linkHash_chain, hnbucket, linkHash_nbucket]
  constructor <;> rw [hcontext]
  · exact hne
  · exact hnbucket ▸ hsection.nbucket_pos
  · exact hnchain ▸ hsection.symbol_ne
  · rw [← hnbucket, ← hnchain, hchain]
    simp only [linkHash_bucket]
    exact hsection.chains

/-- The lookup ends with an exported definition of the name if the symbol table
has one and with the null pointer otherwise. -/
theorem lookupSymbolInImage_finds {image symbol : ℕ} {name : List UInt8}
    (htable : HashTable memory image) (hpointer : symbol < 2 ^ 32)
    (hsymbol : CString memory symbol name) :
    ∃ found, elfElf32LookupSymbolInImage memory image symbol = .ok found ∧
      (found ≠ 0 ↔ Defines memory image name) ∧
      (found ≠ 0 → IsDefinition memory image name found) := by
  obtain ⟨cells, hchain, hmem⟩ :=
    htable.chains _ (Nat.mod_lt (abiHash name) htable.nbucket_pos)
  rw [← hashOf_eq_abiHash] at hchain
  have hcells : ∀ n ∈ cells, n < contextNchain memory (elf32GetLoaderContext memory image) ∧
      ∃ other, NameAt memory (symbolName memory (elf32GetLoaderContext memory image)
        (symbolAt memory (elf32GetLoaderContext memory image) n)) other := by
    intro n hn
    obtain ⟨_, hlt, other, hother, _⟩ := (hmem n).mp hn
    exact ⟨hlt, other, hother.nameAt (u32_lt _)⟩
  rcases elfElf32LookupSymbolInImage_of_chain htable.context_ne htable.nbucket_pos
      (hsymbol.nameAt hpointer) hchain hcells with ⟨n, hn, hexports, heq⟩ | ⟨hnone, heq⟩
  · obtain ⟨hpos, hlt, _⟩ := (hmem n).mp hn
    have hdefinition : IsDefinition memory image name
        (symbolAt memory (elf32GetLoaderContext memory image) n) :=
      ⟨n, hpos, hlt, rfl, hexports⟩
    exact ⟨_, heq, iff_of_true (htable.symbol_ne n hpos hlt) ⟨_, hdefinition⟩,
      fun _ => hdefinition⟩
  · refine ⟨0, heq, iff_of_false (not_not.mpr rfl) ?_, fun hne => absurd rfl hne⟩
    rintro ⟨_, n, hpos, hlt, _, hexports⟩
    exact hnone n ((hmem n).mpr ⟨hpos, hlt, name, hexports.name_at.string, rfl⟩) hexports

theorem exportingLibrary_hashTable : HashTable twoLibrariesMemory 0x5000 := by
  have hcontext : elf32GetLoaderContext twoLibrariesMemory 0x5000 = 0x6000 := by decide
  have hnchain : contextNchain twoLibrariesMemory 0x6000 = 2 := by decide
  have hnbucket : contextNbucket twoLibrariesMemory 0x6000 = 1 := by decide
  constructor <;> rw [hcontext]
  · decide
  · decide
  · intro n hpos hlt
    obtain rfl : n = 1 := by omega
    decide
  · intro bucket hbucket
    obtain rfl : bucket = 0 := by omega
    refine ⟨[1], chain_cons.mpr ⟨by decide, by decide, chain_nil.mpr (by decide)⟩,
      fun n => ⟨fun hmem => ?_, ?_⟩⟩
    · obtain rfl := List.mem_singleton.mp hmem
      exact ⟨by decide, by decide, [0x66],
        ⟨by decide, by decide, (by decide : twoLibrariesMemory _ = 0)⟩,
        by rw [hnbucket, Nat.mod_one]⟩
    · rintro ⟨hpos, hlt, _⟩
      obtain rfl : n = 1 := by omega
      exact List.mem_singleton_self 1

/-- The library exports the symbol that is asked for. -/
theorem lookupSymbolInImage_finds_library :
    ∃ found, elfElf32LookupSymbolInImage twoLibrariesMemory 0x5000 0x8000 = .ok found ∧
      (found ≠ 0 ↔ Defines twoLibrariesMemory 0x5000 [0x66]) ∧
      (found ≠ 0 → IsDefinition twoLibrariesMemory 0x5000 [0x66] found) :=
  lookupSymbolInImage_finds exportingLibrary_hashTable (by decide)
    ⟨by decide, by decide, (by decide : twoLibrariesMemory _ = 0)⟩

end GeexOS.Elf
