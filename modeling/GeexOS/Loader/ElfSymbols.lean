import GeexOS.Library.ByteMemory
import GeexOS.Library.Halting
import GeexOS.Library.Linked

/-!
# Symbol lookup in loaded ELF images

The loader keeps a record for every loaded image and a context with the
addresses of the image's tables.  All of them, and the tables, are read from
memory, whatever lies at the addresses that the code computes.
-/

namespace GeexOS.Elf

open GeexOS.Words
open GeexOS.Halting
open GeexOS.ByteMemory
open GeexOS.Linked

variable {memory : Memory}

/-! ## Records in memory -/

/-- `sizeof(LoadedImage)`. -/
def sizeofLoadedImage : ℕ := 84

def imagePhysicalBase (memory : Memory) (image : ℕ) : ℕ := load64 memory (image + 32)
def imageVirtualBase (memory : Memory) (image : ℕ) : ℕ := load64 memory (image + 40)
def imageOriginalBase (memory : Memory) (image : ℕ) : ℕ := load64 memory (image + 48)

/-- The offset of the list link in a `LoadedImage`. -/
def imageLinkOffset : ℕ := 68

/-- `elf32_getLoaderContext`. -/
def elf32GetLoaderContext (memory : Memory) (image : ℕ) : ℕ :=
  load32 memory (image + 80)

def contextStrtab (memory : Memory) (context : ℕ) : ℕ := load32 memory (context + 28)
def contextSymtab (memory : Memory) (context : ℕ) : ℕ := load32 memory (context + 32)
def contextNbucket (memory : Memory) (context : ℕ) : ℕ := load32 memory (context + 36)
def contextNchain (memory : Memory) (context : ℕ) : ℕ := load32 memory (context + 40)

/-- `bucket[index]`. -/
def contextBucket (memory : Memory) (context index : ℕ) : ℕ :=
  load32 memory (u32 (load32 memory (context + 44) + 4 * index))

/-- `chain[index]`. -/
def contextChain (memory : Memory) (context index : ℕ) : ℕ :=
  load32 memory (u32 (load32 memory (context + 48) + 4 * index))

def contextHasSymbolic (memory : Memory) (context : ℕ) : Bool :=
  memory (context + 52) ≠ 0

/-- `symtab + n`. -/
def symbolAt (memory : Memory) (context n : ℕ) : ℕ :=
  u32 (contextSymtab memory context + 16 * n)

/-- `strtab + s->st_name`. -/
def symbolName (memory : Memory) (context symbol : ℕ) : ℕ :=
  u32 (contextStrtab memory context + load32 memory symbol)

def symbolValue (memory : Memory) (symbol : ℕ) : ℕ := load32 memory (symbol + 4)

/-- `ELF32_ST_BIND(s->st_info)`. -/
def symbolBind (memory : Memory) (symbol : ℕ) : ℕ := (memory (symbol + 12)).toNat / 16

def symbolSection (memory : Memory) (symbol : ℕ) : ℕ := load16 memory (symbol + 14)

def stbGlobal : ℕ := 1
def stbWeak : ℕ := 2
def shnUndef : ℕ := 0

/-! ## Strings -/

/-- Whether `strcmp` finds the two strings equal.  Two strings that agree at
every address without ending are compared for ever. -/
def strcmpLoop (memory : Memory) : (fuel left right : ℕ) → Outcome Bool
  | 0, _, _ => .error .diverges
  | fuel + 1, left, right =>
      if memory left ≠ memory right then .ok false
      else if memory left = 0 then .ok true
      else strcmpLoop memory fuel (u32 (left + 1)) (u32 (right + 1))

def strcmp (memory : Memory) (left right : ℕ) : Outcome Bool :=
  strcmpLoop memory (2 ^ 32) left right

/-- One character of `elfhash`, on 32-bit unsigned integers. -/
def elfhashStep (h : ℕ) (character : UInt8) : ℕ :=
  let h := u32 (h * 16 + character.toNat)
  let g := h &&& 0xF0000000
  (h ^^^ g) ^^^ (g / 2 ^ 24)

def elfhashLoop (memory : Memory) : (fuel name h : ℕ) → Outcome ℕ
  | 0, _, _ => .error .diverges
  | fuel + 1, name, h =>
      if memory name = 0 then .ok h
      else elfhashLoop memory fuel (u32 (name + 1)) (elfhashStep h (memory name))

def elfhash (memory : Memory) (name : ℕ) : Outcome ℕ :=
  elfhashLoop memory (2 ^ 32) name 0

/-! ## Lookup -/

/-- The walk along a hash chain from symbol `n` on; zero if nothing matches. -/
def chainLoop (memory : Memory) (context symbol : ℕ) : (fuel n : ℕ) → Outcome ℕ
  | 0, _ => .error .diverges
  | fuel + 1, n =>
      if n = 0 then .ok 0
      else do
        let s := symbolAt memory context n
        let equal ← strcmp memory (symbolName memory context s) symbol
        if equal ∧
            (symbolBind memory s = stbGlobal ∨ symbolBind memory s = stbWeak) ∧
            symbolSection memory s ≠ shnUndef then
          .ok s
        else chainLoop memory context symbol fuel (contextChain memory context n)

/-- `elf_elf32lookupSymbolInImage`: the address of the symbol or zero. -/
def elfElf32LookupSymbolInImage (memory : Memory) (image symbol : ℕ) : Outcome ℕ := do
  let hash ← elfhash memory symbol
  let context := elf32GetLoaderContext memory image
  if context = 0 then .ok 0
  else if contextNbucket memory context = 0 then .error .fault
  else
    chainLoop memory context symbol (2 ^ 32)
      (contextBucket memory context (hash % contextNbucket memory context))

/-- The images examined by a search, in order, and its result. -/
abbrev Search := List ℕ × Outcome ℕ

/-- Look into one image and go on only if it has no such symbol. -/
def examine (memory : Memory) (image symbol : ℕ) (rest : Search) : Search :=
  match elfElf32LookupSymbolInImage memory image symbol with
  | .error halt => ([image], .error halt)
  | .ok s => if s ≠ 0 then ([image], .ok s) else (image :: rest.1, rest.2)

/-- `for(image = *neededImages; image; image++)`: the pointer to the image is
incremented, not the pointer into the array. -/
def neededLoop (memory : Memory) (symbol : ℕ) : (fuel image : ℕ) → Search
  | 0, _ => ([], .error .diverges)
  | fuel + 1, image =>
      if image = 0 then ([], .ok 0)
      else
        examine memory image symbol
          (neededLoop memory symbol fuel (u32 (image + sizeofLoadedImage)))

/-- `loader_getExecutable`: the last entry of the list at `loadedImages`. -/
def loaderGetExecutable (memory : Memory) (loadedImages : ℕ) : ℕ :=
  if load32 memory loadedImages = loadedImages then 0
  else sub32 (load32 memory (loadedImages + 4)) imageLinkOffset

/-- `elf_elf32lookupSymbol`. -/
def elfElf32LookupSymbol (memory : Memory) (loadedImages image symbol neededImages : ℕ) :
    Search :=
  let context := elf32GetLoaderContext memory image
  if context = 0 then ([], .ok 0)
  else
    let mainExecutable := loaderGetExecutable memory loadedImages
    let needed := neededLoop memory symbol (2 ^ 32) (load32 memory neededImages)
    let global :=
      if mainExecutable ≠ 0 then examine memory mainExecutable symbol needed else needed
    if contextHasSymbolic memory context then examine memory image symbol global
    else global

/-! ## NUL-terminated strings -/

/-- The bytes from `address` on are `characters` and a terminator. -/
def CString (memory : Memory) : ℕ → List UInt8 → Prop
  | address, [] => memory address = 0
  | address, character :: rest =>
      memory address = character ∧ character ≠ 0 ∧ CString memory (u32 (address + 1)) rest

theorem CString.unique {address : ℕ} {left right : List UInt8}
    (hleft : CString memory address left) (hright : CString memory address right) :
    left = right := by
  induction left generalizing address right with
  | nil =>
      cases right with
      | nil => rfl
      | cons character rest => exact absurd (hright.1.symm.trans hleft) hright.2.1
  | cons character rest ih =>
      cases right with
      | nil => exact absurd (hleft.1.symm.trans hright) hleft.2.1
      | cons character' rest' =>
          rw [ih hleft.2.2 hright.2.2, ← hleft.1, ← hright.1]

theorem strcmpLoop_eq {left right fuel : ℕ} {leftCharacters rightCharacters : List UInt8}
    (hleft : CString memory left leftCharacters)
    (hright : CString memory right rightCharacters)
    (hfuel : leftCharacters.length < fuel) :
    strcmpLoop memory fuel left right =
      .ok (decide (leftCharacters = rightCharacters)) := by
  induction leftCharacters generalizing left right fuel rightCharacters with
  | nil =>
      obtain ⟨fuel, rfl⟩ : ∃ less, fuel = less + 1 := ⟨fuel - 1, by omega⟩
      rw [strcmpLoop, show memory left = 0 from hleft]
      cases rightCharacters with
      | nil => simp [show memory right = 0 from hright]
      | cons character rest =>
          rw [hright.1, if_pos hright.2.1.symm]
          simp
  | cons character rest ih =>
      obtain ⟨fuel, rfl⟩ : ∃ less, fuel = less + 1 := ⟨fuel - 1, by omega⟩
      rw [strcmpLoop, hleft.1]
      cases rightCharacters with
      | nil =>
          rw [show memory right = 0 from hright, if_pos hleft.2.1]
          simp
      | cons character' rest' =>
          rw [hright.1]
          by_cases heq : character = character'
          · subst heq
            rw [if_neg (not_not.mpr rfl), if_neg hleft.2.1,
              ih hleft.2.2 hright.2.2 (Nat.lt_of_succ_lt_succ hfuel)]
            simp
          · rw [if_pos heq]
            simp [heq]

/-- The hash of a string of characters. -/
def hashOf (characters : List UInt8) : ℕ := characters.foldl elfhashStep 0

theorem elfhashLoop_eq {name fuel h : ℕ} {characters : List UInt8}
    (hname : CString memory name characters) (hfuel : characters.length < fuel) :
    elfhashLoop memory fuel name h = .ok (characters.foldl elfhashStep h) := by
  induction characters generalizing name fuel h with
  | nil =>
      obtain ⟨fuel, rfl⟩ : ∃ less, fuel = less + 1 := ⟨fuel - 1, by omega⟩
      rw [elfhashLoop, if_pos (show memory name = 0 from hname), List.foldl_nil]
  | cons character rest ih =>
      obtain ⟨fuel, rfl⟩ : ∃ less, fuel = less + 1 := ⟨fuel - 1, by omega⟩
      rw [elfhashLoop, hname.1, if_neg hname.2.1,
        ih hname.2.2 (Nat.lt_of_succ_lt_succ hfuel), List.foldl_cons]

/-- A string that fits into the address space. -/
structure NameAt (memory : Memory) (address : ℕ) (characters : List UInt8) : Prop where
  string : CString memory address characters
  length_lt : characters.length < 2 ^ 32

theorem NameAt.elfhash_eq {name : ℕ} {characters : List UInt8}
    (hname : NameAt memory name characters) :
    elfhash memory name = .ok (hashOf characters) :=
  elfhashLoop_eq hname.string hname.length_lt

theorem NameAt.strcmp_eq {left right : ℕ} {leftCharacters rightCharacters : List UInt8}
    (hleft : NameAt memory left leftCharacters)
    (hright : NameAt memory right rightCharacters) :
    strcmp memory left right = .ok (decide (leftCharacters = rightCharacters)) :=
  strcmpLoop_eq hleft.string hright.string hleft.length_lt

/-! ## Well-formed tables -/

/-- Symbol `n` of the image is a definition of the name that others may use. -/
structure Exports (memory : Memory) (context n : ℕ) (name : List UInt8) : Prop where
  name_at : NameAt memory (symbolName memory context (symbolAt memory context n)) name
  bind : symbolBind memory (symbolAt memory context n) = stbGlobal ∨
    symbolBind memory (symbolAt memory context n) = stbWeak
  defined : symbolSection memory (symbolAt memory context n) ≠ shnUndef

/-- `symbol` is the entry of an exported definition of `name` in the image. -/
def IsDefinition (memory : Memory) (image : ℕ) (name : List UInt8) (symbol : ℕ) : Prop :=
  ∃ n, 0 < n ∧ n < contextNchain memory (elf32GetLoaderContext memory image) ∧
    symbol = symbolAt memory (elf32GetLoaderContext memory image) n ∧
    Exports memory (elf32GetLoaderContext memory image) n name

def Defines (memory : Memory) (image : ℕ) (name : List UInt8) : Prop :=
  ∃ symbol, IsDefinition memory image name symbol

/-- The hash table of the image lists every symbol in the bucket of its name,
each chain ending in zero, and the symbol table lies in the address space. -/
structure WellFormed (memory : Memory) (image : ℕ) : Prop where
  context_ne : elf32GetLoaderContext memory image ≠ 0
  nbucket_pos : 0 < contextNbucket memory (elf32GetLoaderContext memory image)
  symtab_pos : 0 < contextSymtab memory (elf32GetLoaderContext memory image)
  symtab_end : contextSymtab memory (elf32GetLoaderContext memory image) +
    16 * contextNchain memory (elf32GetLoaderContext memory image) ≤ 2 ^ 32
  names : ∀ n, 0 < n → n < contextNchain memory (elf32GetLoaderContext memory image) →
    ∃ name, NameAt memory
      (symbolName memory (elf32GetLoaderContext memory image)
        (symbolAt memory (elf32GetLoaderContext memory image) n)) name
  chains : ∀ bucket < contextNbucket memory (elf32GetLoaderContext memory image),
    ∃ cells, Chain (contextChain memory (elf32GetLoaderContext memory image)) 0
        (contextBucket memory (elf32GetLoaderContext memory image) bucket) cells ∧
      ∀ n, n ∈ cells ↔ 0 < n ∧
        n < contextNchain memory (elf32GetLoaderContext memory image) ∧
        ∃ name, NameAt memory
            (symbolName memory (elf32GetLoaderContext memory image)
              (symbolAt memory (elf32GetLoaderContext memory image) n)) name ∧
          hashOf name % contextNbucket memory (elf32GetLoaderContext memory image) =
            bucket

theorem WellFormed.symbolAt_ne {image n : ℕ} (hformed : WellFormed memory image)
    (hn : n < contextNchain memory (elf32GetLoaderContext memory image)) :
    symbolAt memory (elf32GetLoaderContext memory image) n ≠ 0 := by
  have hpos := hformed.symtab_pos
  have hend := hformed.symtab_end
  rw [symbolAt, u32_of_lt (by omega)]
  omega

/-- The walk returns the first exported symbol of the name on the chain. -/
theorem chainLoop_spec {context symbol start fuel : ℕ} {name : List UInt8}
    {cells : List ℕ} (hsymbol : NameAt memory symbol name)
    (hchain : Chain (contextChain memory context) 0 start cells)
    (hnames : ∀ n ∈ cells, ∃ other, NameAt memory
      (symbolName memory context (symbolAt memory context n)) other)
    (hfuel : cells.length < fuel) :
    (∃ n ∈ cells, Exports memory context n name ∧
        chainLoop memory context symbol fuel start = .ok (symbolAt memory context n)) ∨
      ((∀ n ∈ cells, ¬ Exports memory context n name) ∧
        chainLoop memory context symbol fuel start = .ok 0) := by
  induction cells generalizing start fuel with
  | nil =>
      obtain ⟨fuel, rfl⟩ : ∃ less, fuel = less + 1 := ⟨fuel - 1, by omega⟩
      right
      refine ⟨by simp, ?_⟩
      rw [chainLoop, if_pos (chain_nil.mp hchain)]
  | cons n rest ih =>
      obtain ⟨fuel, rfl⟩ : ∃ less, fuel = less + 1 := ⟨fuel - 1, by omega⟩
      obtain ⟨hstart, hne, hrest⟩ := chain_cons.mp hchain
      obtain ⟨other, hother⟩ := hnames n List.mem_cons_self
      have hcompare := hother.strcmp_eq hsymbol
      rw [hstart, chainLoop, if_neg hne]
      simp only [hcompare, ok_bind, decide_eq_true_eq]
      by_cases hexports : Exports memory context n name
      · left
        refine ⟨n, List.mem_cons_self, hexports, ?_⟩
        have hname := hother.string.unique hexports.name_at.string
        rw [if_pos ⟨hname, hexports.bind, hexports.defined⟩]
      · have hskip : ¬ (other = name ∧
            (symbolBind memory (symbolAt memory context n) = stbGlobal ∨
              symbolBind memory (symbolAt memory context n) = stbWeak) ∧
            symbolSection memory (symbolAt memory context n) ≠ shnUndef) := by
          rintro ⟨rfl, hbind, hdefined⟩
          exact hexports ⟨hother, hbind, hdefined⟩
        rw [if_neg hskip]
        rcases ih hrest (fun m hm => hnames m (List.mem_cons_of_mem _ hm))
          (Nat.lt_of_succ_lt_succ hfuel) with ⟨m, hm, hexp, heq⟩ | ⟨hnone, heq⟩
        · exact Or.inl ⟨m, List.mem_cons_of_mem _ hm, hexp, heq⟩
        · refine Or.inr ⟨fun m hm => ?_, heq⟩
          rcases List.mem_cons.mp hm with rfl | hm
          · exact hexports
          · exact hnone m hm

/-- The lookup walks the chain of the bucket that the hash of the name belongs to. -/
theorem elfElf32LookupSymbolInImage_of_chain {image symbol : ℕ} {name : List UInt8}
    {cells : List ℕ} (hcontext : elf32GetLoaderContext memory image ≠ 0)
    (hnbucket : 0 < contextNbucket memory (elf32GetLoaderContext memory image))
    (hsymbol : NameAt memory symbol name)
    (hchain : Chain (contextChain memory (elf32GetLoaderContext memory image)) 0
      (contextBucket memory (elf32GetLoaderContext memory image)
        (hashOf name % contextNbucket memory (elf32GetLoaderContext memory image))) cells)
    (hcells : ∀ n ∈ cells, n < contextNchain memory (elf32GetLoaderContext memory image) ∧
      ∃ other, NameAt memory (symbolName memory (elf32GetLoaderContext memory image)
        (symbolAt memory (elf32GetLoaderContext memory image) n)) other) :
    (∃ n ∈ cells, Exports memory (elf32GetLoaderContext memory image) n name ∧
        elfElf32LookupSymbolInImage memory image symbol =
          .ok (symbolAt memory (elf32GetLoaderContext memory image) n)) ∨
      ((∀ n ∈ cells, ¬ Exports memory (elf32GetLoaderContext memory image) n name) ∧
        elfElf32LookupSymbolInImage memory image symbol = .ok 0) := by
  have hlength : cells.length < 2 ^ 32 := by
    have hnchain : cells.length ≤
        contextNchain memory (elf32GetLoaderContext memory image) :=
      length_le_of_nodup hchain.nodup fun n hn => (hcells n hn).1
    exact hnchain.trans_lt load32_lt
  have hlookup : elfElf32LookupSymbolInImage memory image symbol =
      chainLoop memory (elf32GetLoaderContext memory image) symbol (2 ^ 32)
        (contextBucket memory (elf32GetLoaderContext memory image)
          (hashOf name % contextNbucket memory (elf32GetLoaderContext memory image))) := by
    rw [elfElf32LookupSymbolInImage, hsymbol.elfhash_eq, ok_bind]
    simp only [hcontext, if_false, hnbucket.ne']
  rw [hlookup]
  exact chainLoop_spec hsymbol hchain (fun n hn => (hcells n hn).2) hlength

/-- In an image with well-formed tables the search returns a definition if
there is one and zero otherwise. -/
theorem elfElf32LookupSymbolInImage_spec {image symbol : ℕ} {name : List UInt8}
    (hformed : WellFormed memory image) (hsymbol : NameAt memory symbol name) :
    (∃ s, s ≠ 0 ∧ IsDefinition memory image name s ∧
        elfElf32LookupSymbolInImage memory image symbol = .ok s) ∨
      (¬ Defines memory image name ∧
        elfElf32LookupSymbolInImage memory image symbol = .ok 0) := by
  have hbucket := Nat.mod_lt (hashOf name) hformed.nbucket_pos
  obtain ⟨cells, hchain, hmem⟩ := hformed.chains _ hbucket
  rcases elfElf32LookupSymbolInImage_of_chain hformed.context_ne hformed.nbucket_pos hsymbol hchain
      (fun n hn => ⟨((hmem n).mp hn).2.1,
        hformed.names n ((hmem n).mp hn).1 ((hmem n).mp hn).2.1⟩) with
    ⟨n, hn, hexports, heq⟩ | ⟨hnone, heq⟩
  · obtain ⟨hpos, hlt, _⟩ := (hmem n).mp hn
    exact Or.inl ⟨_, hformed.symbolAt_ne hlt, ⟨n, hpos, hlt, rfl, hexports⟩, heq⟩
  · refine Or.inr ⟨?_, heq⟩
    rintro ⟨_, n, hpos, hlt, _, hexports⟩
    exact hnone n ((hmem n).mpr ⟨hpos, hlt, name, hexports.name_at, rfl⟩) hexports

end GeexOS.Elf
