import GeexOS.Loader.ElfImage

/-!
# The headers of an ELF file

The program headers are read in one block from behind the ELF header and indexed with
the compiler's stride.  The ELF header itself says where they lie and how far they are
apart.
-/

namespace GeexOS.Elf

open GeexOS.Words
open GeexOS.ByteMemory

/-- The fields of the ELF header that matter here. -/
structure Elf32Ehdr where
  type : ℕ
  machine : ℕ
  entry : ℕ
  phoff : ℕ
  ehsize : ℕ
  phentsize : ℕ
  phnum : ℕ
  deriving DecidableEq, Repr

def sizeofElf32Ehdr : ℕ := 52
def sizeofElf32Phdr : ℕ := 32
def etDyn : ℕ := 3
def em386 : ℕ := 3

/-- The header in the first bytes. -/
def File.ehdr (file : File) : Elf32Ehdr where
  type := load16 file.bytes 16
  machine := load16 file.bytes 18
  entry := load32 file.bytes 24
  phoff := load32 file.bytes 28
  ehsize := load16 file.bytes 40
  phentsize := load16 file.bytes 42
  phnum := load16 file.bytes 44

/-- `elf_getElf32Header`, at the beginning of the file. -/
def elfGetElf32Header (file : File) : Option Elf32Ehdr :=
  let header := file.ehdr
  if min sizeofElf32Ehdr file.size ≠ sizeofElf32Ehdr then none
  else if header.machine ≠ em386 then none
  else if header.type ≠ etDyn then none
  else some header

/-- `elf_getElf32Phdrs`: the contents of the block at `context->phdrs`. -/
def elfGetElf32Phdrs (file : File) (header : Elf32Ehdr) : Option (List UInt8) :=
  let phdrSize := u32 (header.phentsize * header.phnum)
  if phdrSize > 16 * 1024 then none
  else
    let filePointer := file.seekSet header.ehsize
    if min phdrSize (file.size - filePointer) ≠ phdrSize then none
    else some ((List.range phdrSize).map fun i => file.bytes (filePointer + i))

/-- The bytes of `context->phdrs[i]`; the heap goes on behind the block. -/
def phdrEntry (block : List UInt8) (behind : ℕ → UInt8) (i : ℕ) : List UInt8 :=
  (List.range sizeofElf32Phdr).map fun k =>
    block.getD (sizeofElf32Phdr * i + k) (behind (sizeofElf32Phdr * i + k))

/-- The fields of a program header. -/
def elf32Phdr (entry : List UInt8) : Elf32Phdr :=
  let bytes : Memory := fun k => entry.getD k 0
  { type := load32 bytes 0
    offset := load32 bytes 4
    vaddr := load32 bytes 8
    filesz := load32 bytes 16
    memsz := load32 bytes 20
    flags := load32 bytes 24 }

/-! ## The headers that are meant -/

/-- The program header at a place of the file. -/
def File.storedPhdr (file : File) (offset : ℕ) : Option (List UInt8) :=
  if offset + sizeofElf32Phdr ≤ file.size then
    some ((List.range sizeofElf32Phdr).map fun k => file.bytes (offset + k))
  else none

/-- A file whose headers are accepted, and the block with the program headers. -/
structure AcceptedFile where
  file : File
  header : Elf32Ehdr
  block : List UInt8
  header_accepted : elfGetElf32Header file = some header
  phdrs_accepted : elfGetElf32Phdrs file header = some block

namespace AcceptedFile

variable (accepted : AcceptedFile)

/-- What the loader works with. -/
def context (behind : ℕ → UInt8) : LoaderContext where
  phdrs := (List.range accepted.header.phnum).map fun i =>
    elf32Phdr (phdrEntry accepted.block behind i)
  entry := accepted.header.entry

/-- Whatever lies behind the block, the entries are those that the ELF header names. -/
def UsesNamedPhdrs : Prop :=
  ∀ behind, ∀ i < accepted.header.phnum,
    some (phdrEntry accepted.block behind i) =
      accepted.file.storedPhdr (accepted.header.phoff + i * accepted.header.phentsize)

/-- The block holds every entry, and the file has the same bytes where an entry is read
and where it should be. -/
def NamedBehindHeader : Prop :=
  accepted.header.phnum = 0 ∨
    sizeofElf32Phdr ≤ accepted.header.phentsize ∧ ∀ i < accepted.header.phnum,
      accepted.file.storedPhdr (accepted.header.phoff + i * accepted.header.phentsize) =
        accepted.file.storedPhdr (accepted.header.ehsize + i * sizeofElf32Phdr)

theorem header_eq : accepted.header = accepted.file.ehdr := by
  have haccepted := accepted.header_accepted
  rw [elfGetElf32Header] at haccepted
  split_ifs at haccepted
  exact (Option.some.inj haccepted).symm

theorem phdrSize_eq :
    u32 (accepted.header.phentsize * accepted.header.phnum) =
      accepted.header.phentsize * accepted.header.phnum := by
  have hsize : accepted.header.phentsize < 2 ^ 16 := by
    rw [accepted.header_eq]
    exact load16_lt
  have hcount : accepted.header.phnum < 2 ^ 16 := by
    rw [accepted.header_eq]
    exact load16_lt
  exact u32_of_lt (Nat.lt_of_lt_of_le (Nat.mul_lt_mul'' hsize hcount) (by norm_num))

/-- The block has the bytes behind the ELF header. -/
theorem block_eq (hpos : 0 < accepted.header.phentsize * accepted.header.phnum) :
    accepted.header.ehsize + accepted.header.phentsize * accepted.header.phnum ≤
        accepted.file.size ∧
      accepted.block = (List.range (accepted.header.phentsize * accepted.header.phnum)).map
        fun i => accepted.file.bytes (accepted.header.ehsize + i) := by
  have haccepted := accepted.phdrs_accepted
  have hehsize : accepted.header.ehsize < 2 ^ 16 := by
    rw [accepted.header_eq]
    exact load16_lt
  have hseek : accepted.file.seekSet accepted.header.ehsize =
      min accepted.header.ehsize accepted.file.size := if_pos (by omega)
  simp only [elfGetElf32Phdrs, accepted.phdrSize_eq, hseek] at haccepted
  split at haccepted
  · cases haccepted
  · split at haccepted
    · cases haccepted
    · rename_i hread
      have hinside : accepted.header.ehsize ≤ accepted.file.size := by omega
      rw [min_eq_left hinside] at haccepted
      exact ⟨by omega, (Option.some.inj haccepted).symm⟩

theorem length_block :
    accepted.block.length = accepted.header.phentsize * accepted.header.phnum := by
  rcases Nat.eq_zero_or_pos (accepted.header.phentsize * accepted.header.phnum) with hzero | hpos
  · have haccepted := accepted.phdrs_accepted
    rw [elfGetElf32Phdrs, accepted.phdrSize_eq, hzero] at haccepted
    rw [← Option.some.inj haccepted, hzero]
    rfl
  · rw [(accepted.block_eq hpos).2]
    simp

/-- An entry in the block is one behind the ELF header. -/
theorem phdrEntry_eq (hsize : sizeofElf32Phdr ≤ accepted.header.phentsize) {i : ℕ}
    (hi : i < accepted.header.phnum) (behind : ℕ → UInt8) :
    some (phdrEntry accepted.block behind i) =
      accepted.file.storedPhdr (accepted.header.ehsize + i * sizeofElf32Phdr) := by
  have hend : i * sizeofElf32Phdr + sizeofElf32Phdr ≤
      accepted.header.phentsize * accepted.header.phnum := by
    rw [← Nat.succ_mul, Nat.mul_comm accepted.header.phentsize]
    exact Nat.mul_le_mul hi hsize
  have hpos : 0 < sizeofElf32Phdr := by decide
  obtain ⟨hinside, hblock⟩ := accepted.block_eq (by omega)
  rw [File.storedPhdr, if_pos (by omega), phdrEntry]
  congr 1
  apply List.map_congr_left
  intro k hk
  have hk := List.mem_range.mp hk
  have hcommute := Nat.mul_comm i sizeofElf32Phdr
  rw [hblock, List.getD_eq_getElem _ _ (by rw [List.length_map, List.length_range]; omega),
    List.getElem_map, List.getElem_range, hcommute, Nat.add_assoc]

/-- With a smaller stride in the file the last entry is not in the block as a whole. -/
theorem not_usesNamedPhdrs (hcount : accepted.header.phnum ≠ 0)
    (hsize : accepted.header.phentsize < sizeofElf32Phdr) : ¬ accepted.UsesNamedPhdrs := by
  intro huses
  obtain ⟨last, hlast⟩ : ∃ last, accepted.header.phnum = last + 1 :=
    Nat.exists_eq_succ_of_ne_zero hcount
  have hsame : ∀ byte : UInt8,
      (phdrEntry accepted.block (fun _ => byte) last).getD 31 0 = byte := by
    intro byte
    have hend : accepted.block.length ≤ sizeofElf32Phdr * last + 31 := by
      rw [accepted.length_block, hlast]
      have hproduct := Nat.mul_le_mul_right (last + 1) (Nat.le_sub_one_of_lt hsize)
      simp only [sizeofElf32Phdr] at hproduct ⊢
      omega
    rw [phdrEntry, List.getD_eq_getElem _ _ (by simp [sizeofElf32Phdr]), List.getElem_map,
      List.getElem_range]
    exact List.getD_eq_default _ _ hend
  have hzero := huses (fun _ => 0) last (by omega)
  have hone := huses (fun _ => 1) last (by omega)
  have hentries := Option.some.inj (hzero.trans hone.symm)
  have hbytes := congrArg (fun entry : List UInt8 => entry.getD 31 0) hentries
  simp only [hsame] at hbytes
  exact absurd hbytes (by decide)

theorem usesNamedPhdrs_of_namedBehindHeader (hnamed : accepted.NamedBehindHeader) :
    accepted.UsesNamedPhdrs := by
  intro behind i hi
  rcases hnamed with hcount | ⟨hsize, hsame⟩
  · omega
  · rw [hsame i hi]
    exact accepted.phdrEntry_eq hsize hi behind

/-- The loader uses the entries that are named exactly if they are also those behind the
ELF header, in the compiler's stride. -/
theorem usesNamedPhdrs_iff_namedBehindHeader :
    accepted.UsesNamedPhdrs ↔ accepted.NamedBehindHeader := by
  constructor
  · intro huses
    by_cases hcount : accepted.header.phnum = 0
    · exact Or.inl hcount
    have hsize : sizeofElf32Phdr ≤ accepted.header.phentsize := by
      by_contra hshort
      exact accepted.not_usesNamedPhdrs hcount (Nat.not_le.mp hshort) huses
    refine Or.inr ⟨hsize, fun i hi => ?_⟩
    rw [← huses (fun _ => 0) i hi]
    exact accepted.phdrEntry_eq hsize hi _
  · exact accepted.usesNamedPhdrs_of_namedBehindHeader

/-- Tables right behind the header, of entries of the usual size. -/
theorem namedBehindHeader_of_usual (hoffset : accepted.header.phoff = accepted.header.ehsize)
    (hsize : accepted.header.phentsize = sizeofElf32Phdr) : accepted.NamedBehindHeader := by
  refine Or.inr ⟨hsize.ge, fun i _ => ?_⟩
  rw [hoffset, hsize]

/-- Then the loader works with the program headers of the file. -/
theorem context_of_usual (hoffset : accepted.header.phoff = accepted.header.ehsize)
    (hsize : accepted.header.phentsize = sizeofElf32Phdr) (behind : ℕ → UInt8) :
    (accepted.context behind).phdrs = (List.range accepted.header.phnum).map fun i =>
      elf32Phdr ((List.range sizeofElf32Phdr).map fun k =>
        accepted.file.bytes (accepted.header.phoff + i * accepted.header.phentsize + k)) := by
  apply List.map_congr_left
  intro i hi
  have huses := accepted.usesNamedPhdrs_of_namedBehindHeader
    (accepted.namedBehindHeader_of_usual hoffset hsize) behind i (List.mem_range.mp hi)
  rw [File.storedPhdr] at huses
  split_ifs at huses
  rw [Option.some.inj huses]

end AcceptedFile

/-- One program header, and 32 bytes between it and the ELF header. -/
def gapFile : File where
  size := 116
  bytes := fun position =>
    match position with
    | 0 => 0x7F
    | 1 => 0x45
    | 2 => 0x4C
    | 3 => 0x46
    | 4 => 1
    | 16 => 3
    | 18 => 3
    | 28 => 84
    | 40 => 52
    | 42 => 32
    | 44 => 1
    | 84 => 1
    | _ => 0

def gapAccepted : AcceptedFile where
  file := gapFile
  header := gapFile.ehdr
  block := List.replicate 32 0
  header_accepted := by decide
  phdrs_accepted := by decide

/-- The bytes of the gap are taken for the program header. -/
theorem gap_not_usesNamedPhdrs : ¬ ∀ accepted : AcceptedFile, accepted.UsesNamedPhdrs := by
  intro hall
  have hentry : some (phdrEntry gapAccepted.block (fun _ => 0) 0) ≠
      gapAccepted.file.storedPhdr (gapAccepted.header.phoff +
        0 * gapAccepted.header.phentsize) := by decide
  exact hentry (hall gapAccepted (fun _ => 0) 0 (by decide))

end GeexOS.Elf
