import GeexOS.Loader.HeapOperations
import Mathlib.Logic.Relation

/-!
# Runs of the loader's heap

The users of a heap allocate blocks, give live blocks back, and write into the
blocks they own and anywhere outside the heap.
-/

namespace GeexOS.Heap

open GeexOS.Words
open GeexOS.Halting
open GeexOS.ByteMemory
open GeexOS.Linked
open GeexOS.PhysicalMemory
open Chunk

variable {heap size : ℕ} {memory memory' : Memory} {free : List Chunk}

/-! ## Creation -/

theorem pageEnd_dvd (address : ℕ) : archPagesize ∣ pageEnd address := by
  have hlt : u64 (address + (archPagesize - 1)) < 2 ^ 64 := Nat.mod_lt _ (by norm_num)
  rw [pageEnd, pageStart_eq hlt]
  exact Nat.dvd_mul_left _ _

/-- The writes that leave one free chunk. -/
theorem represents_single {block : Chunk} (hbound : heap + size < 2 ^ 32)
    (hinside : Inside heap size block) :
    Represents (setFreelist (setNext (setSize memory block.start block.size) block.start 0)
      heap block.start) heap size [block] [] := by
  have hlayout : Layout heap size ([] ++ [block]) [] :=
    ⟨hbound, by simpa using hinside, List.pairwise_singleton _ _,
      List.pairwise_singleton _ _⟩
  have hsize : block.size < 2 ^ 32 := by
    have hhigh := hinside.high
    simp only [finish] at hhigh
    omega
  refine (Pending.mk hlayout ?_ rfl ⟨rfl, ?_⟩).setFreelist
  · simp only [List.nil_append, List.append_nil, List.mem_singleton, forall_eq]
    rw [chunkSize_setNext hbound hinside (fun hne => absurd rfl hne)]
    exact load32_store32_self hsize
  · exact chunkNext_setNext_self (Nat.two_pow_pos 32)

/-- A heap that was created is one chunk. -/
theorem heapCreate_eq_ok {state state' : MemoryState} {maxSize : ℕ}
    (hstate : state.WellFormed)
    (hcreate : heapCreate state memory maxSize = .ok (heap, state', memory')) :
    sizeofHeap ≤ u32 (pageEnd maxSize) ∧
      Represents memory' heap (u32 (pageEnd maxSize))
        [⟨heap + sizeofHeap, u32 (pageEnd maxSize) - sizeofHeap - sizeofSize⟩] [] := by
  obtain ⟨⟨heap', state''⟩, hallocate, hrest⟩ := bind_eq_ok.mp hcreate
  simp only [Except.ok.injEq, Prod.mk.injEq] at hrest
  obtain ⟨rfl, rfl, rfl⟩ := hrest
  have hsize : u32 (pageEnd maxSize) < 2 ^ 32 := u32_lt _
  have hdvd : archPagesize ∣ u32 (pageEnd maxSize) := by
    rw [u32, Nat.dvd_mod_iff (by norm_num [archPagesize])]
    exact pageEnd_dvd maxSize
  have hpos : u32 (pageEnd maxSize) ≠ 0 := by
    intro hzero
    simp [memoryAllocate, hzero] at hallocate
  obtain ⟨first, rfl, heffect⟩ := memoryAllocate_eq_ok hstate hsize hallocate
  have hpage : archPagesize ≤ u32 (pageEnd maxSize) :=
    Nat.le_of_dvd (Nat.pos_of_ne_zero hpos) hdvd
  have hbound : first * archPagesize + u32 (pageEnd maxSize) < 2 ^ 32 := by
    have hbelow := heffect.below_4GiB
    rw [Nat.add_mul, Nat.div_mul_cancel hdvd] at hbelow
    omega
  generalize u32 (pageEnd maxSize) = size at hsize hpage hbound
  generalize first * archPagesize = heap at hbound
  simp only [archPagesize] at hpage
  have hdata : sub32 (sub32 size sizeofHeap) sizeofSize = size - sizeofHeap - sizeofSize := by
    simp only [sizeofHeap, sizeofSize]
    rw [sub32_of_le hsize (by omega), sub32_of_le (by omega) (by omega)]
  have hstart : u32 (heap + sizeofHeap) = heap + sizeofHeap :=
    u32_of_lt (by simp only [sizeofHeap]; omega)
  have hinside : Inside heap size ⟨heap + sizeofHeap, size - sizeofHeap - sizeofSize⟩ := by
    refine ⟨le_rfl, ?_, ?_⟩
    · simp only [finish, sizeofHeap, sizeofSize]
      omega
    · simp only [sizeofHeap, sizeofSize, sizeofFreelist]
      omega
  rw [hdata, hstart]
  exact ⟨by simp only [sizeofHeap]; omega, represents_single hbound hinside⟩

/-! ## Steps -/

/-- A pointer that was returned for a requested length. -/
structure Block where
  address : ℕ
  len : ℕ
  deriving DecidableEq, Repr

/-- The chunk of a block, by its size header. -/
def Block.chunk (memory : Memory) (block : Block) : Chunk :=
  ⟨block.address - sizeofSize, chunkSize memory (block.address - sizeofSize)⟩

/-- Memory with the blocks that have not been given back. -/
structure HeapState where
  memory : Memory
  live : List Block

/-- One call that returns, or a write by the users.  `allowed` restricts the
states in which a block is given back. -/
inductive HeapStep (heap size : ℕ) (allowed : Memory → Prop) :
    HeapState → HeapState → Prop
  | alloc {memory memory' : Memory} {live : List Block} {len p : ℕ}
      (hlen : len < 2 ^ 32) (hcall : heapAlloc memory heap len = .ok (p, memory')) :
      HeapStep heap size allowed ⟨memory, live⟩ ⟨memory', ⟨p, len⟩ :: live⟩
  | free {memory memory' : Memory} {front back : List Block} {block : Block}
      (hallowed : allowed memory)
      (hcall : heapFree memory heap block.address = .ok memory') :
      HeapStep heap size allowed ⟨memory, front ++ block :: back⟩
        ⟨memory', front ++ back⟩
  | write {memory memory' : Memory} {live : List Block}
      (hsame : ∀ position, heap ≤ position → position < heap + size →
        (∀ block ∈ live, position < block.address ∨ block.address + block.len ≤ position) →
        memory' position = memory position) :
      HeapStep heap size allowed ⟨memory, live⟩ ⟨memory', live⟩

abbrev HeapRun (heap size : ℕ) (allowed : Memory → Prop) : HeapState → HeapState → Prop :=
  Relation.ReflTransGen (HeapStep heap size allowed)

/-- Not every byte of the heap is in use. -/
def NotExhausted (heap : ℕ) (memory : Memory) : Prop := heapFreelist memory heap ≠ 0

/-- The free list is finite and ascending, its chunks and the live blocks with
their headers lie apart in the data area, and calls come back. -/
structure HeapSafe (heap size : ℕ) (allowed : Memory → Prop) (state : HeapState) :
    Prop where
  list : ∃ free : List Chunk,
    Chain (chunkNext state.memory) 0 (heapFreelist state.memory heap)
        (free.map Chunk.start) ∧
      (∀ chunk ∈ free, chunkSize state.memory chunk.start = chunk.size) ∧
      (free.map Chunk.start).Pairwise (· < ·) ∧
      Disjoint (free ++ state.live.map (Block.chunk state.memory)) ∧
      ∀ chunk ∈ free ++ state.live.map (Block.chunk state.memory),
        heap + sizeofHeap ≤ chunk.start ∧ chunk.finish ≤ heap + size
  room : ∀ block ∈ state.live,
    sizeofSize ≤ block.address ∧ block.len ≤ (block.chunk state.memory).size
  alloc_returns : ∀ len < 2 ^ 32, (∃ result, heapAlloc state.memory heap len = .ok result) ∨
    heapAlloc state.memory heap len = .error (.panic "Heap is full")
  fresh : ∀ len < 2 ^ 32, ∀ p memory', heapAlloc state.memory heap len = .ok (p, memory') →
    ∀ block ∈ state.live, p ≠ block.address
  free_returns : allowed state.memory → ∀ block ∈ state.live,
    ∃ memory', heapFree state.memory heap block.address = .ok memory'

/-- The invariant that runs keep. -/
structure Invariant (heap size : ℕ) (state : HeapState) (free : List Chunk) : Prop where
  record : sizeofHeap ≤ size
  represents : Represents state.memory heap size free
    (state.live.map (Block.chunk state.memory))
  address : ∀ block ∈ state.live, (block.chunk state.memory).data = block.address
  room : ∀ block ∈ state.live, block.len ≤ (block.chunk state.memory).size

/-- The header in front of a block's address names its chunk. -/
theorem Represents.chunk_eq {chunks : List Chunk} {chunk : Chunk} {block : Block}
    (hrepresents : Represents memory heap size free chunks) (hmem : chunk ∈ chunks)
    (haddress : chunk.data = block.address) : block.chunk memory = chunk := by
  have hsize := hrepresents.sizes chunk (List.mem_append_right free hmem)
  have hstart : block.address - sizeofSize = chunk.start := by
    rw [← haddress]
    exact Nat.add_sub_cancel _ _
  simp only [Block.chunk, hstart, hsize]

theorem Invariant.of_represents {live : List Block} (hrecord : sizeofHeap ≤ size)
    (hrepresents : Represents memory' heap size free (live.map (Block.chunk memory)))
    (haddress : ∀ block ∈ live, (block.chunk memory).data = block.address)
    (hroom : ∀ block ∈ live, block.len ≤ (block.chunk memory).size) :
    Invariant heap size ⟨memory', live⟩ free := by
  have hchunk : ∀ block ∈ live, block.chunk memory' = block.chunk memory :=
    fun block hmem => hrepresents.chunk_eq (List.mem_map_of_mem hmem) (haddress block hmem)
  refine ⟨hrecord, ?_, fun block hmem => ?_, fun block hmem => ?_⟩
  · simp only
    rw [List.map_congr_left hchunk]
    exact hrepresents
  · simp only [hchunk block hmem]
    exact haddress block hmem
  · simp only [hchunk block hmem]
    exact hroom block hmem

theorem Chunk.len_le_taken {chunk : Chunk} {len : ℕ} (hfits : len ≤ chunk.size) :
    len ≤ (chunk.taken len).size := by
  rw [Chunk.taken]
  split
  · exact hfits
  · exact le_rfl

/-- An allocation adds the chunk it took. -/
theorem Invariant.allocate {live : List Block} {taken : Chunk} {len : ℕ} {free' : List Chunk}
    (hinvariant : Invariant heap size ⟨memory, live⟩ free) (hlen : len ≤ taken.size)
    (hrepresents : Represents memory' heap size free'
      (taken :: live.map (Block.chunk memory))) :
    Invariant heap size ⟨memory', ⟨taken.data, len⟩ :: live⟩ free' := by
  have htaken : Block.chunk memory' ⟨taken.data, len⟩ = taken :=
    hrepresents.chunk_eq List.mem_cons_self rfl
  have hchunk : ∀ block ∈ live, block.chunk memory' = block.chunk memory := fun block hmem =>
    hrepresents.chunk_eq (List.mem_cons_of_mem _ (List.mem_map_of_mem hmem))
      (hinvariant.address block hmem)
  refine ⟨hinvariant.record, ?_, ?_, ?_⟩
  · simp only [List.map_cons, htaken]
    rw [List.map_congr_left hchunk]
    exact hrepresents
  · rintro block (_ | ⟨_, hmem⟩)
    · rw [htaken]
    · rw [hchunk block hmem]
      exact hinvariant.address block hmem
  · rintro block (_ | ⟨_, hmem⟩)
    · rw [htaken]
      exact hlen
    · rw [hchunk block hmem]
      exact hinvariant.room block hmem

/-- A call on the list that is not empty gives the block's chunk back. -/
theorem Invariant.deallocate {front back : List Block} {block : Block}
    (hinvariant : Invariant heap size ⟨memory, front ++ block :: back⟩ free)
    (hexhausted : NotExhausted heap memory) :
    ∃ memory' free', heapFree memory heap block.address = .ok memory' ∧
      Invariant heap size ⟨memory', front ++ back⟩ free' := by
  obtain ⟨hrecord, hrepresents, haddress, hroom⟩ := hinvariant
  have hne : free ≠ [] := by
    intro hnil
    rw [hnil] at hrepresents
    exact hexhausted (chain_nil.mp hrepresents.chain)
  simp only [List.map_append, List.map_cons] at hrepresents
  obtain ⟨_, _, memory', _, _, _, hreturn, hresult⟩ := hrepresents.heapFree hne
  rw [haddress block (by simp)] at hreturn
  rw [← List.map_append] at hresult
  have hsubset : ∀ other ∈ front ++ back, other ∈ front ++ block :: back := by
    intro other hmem
    rcases List.mem_append.mp hmem with hfront | hback
    · exact List.mem_append_left _ hfront
    · exact List.mem_append_right _ (List.mem_cons_of_mem _ hback)
  exact ⟨memory', _, hreturn, .of_represents hrecord hresult
    (fun other hmem => haddress other (hsubset other hmem))
    (fun other hmem => hroom other (hsubset other hmem))⟩

/-- The users' writes meet no byte the allocator relies on. -/
theorem Invariant.write {live : List Block}
    (hinvariant : Invariant heap size ⟨memory, live⟩ free)
    (hsame : ∀ position, heap ≤ position → position < heap + size →
      (∀ block ∈ live, position < block.address ∨ block.address + block.len ≤ position) →
      memory' position = memory position) :
    Invariant heap size ⟨memory', live⟩ free := by
  obtain ⟨hrecord, hrepresents, haddress, hroom⟩ := hinvariant
  refine .of_represents hrecord (hrepresents.congr fun position hposition => ?_)
    haddress hroom
  obtain ⟨hlow, hhigh⟩ := hposition.inHeap hrepresents.layout hrecord
  refine hsame position hlow hhigh fun block hmem => ?_
  have hchunk : block.chunk memory ∈ live.map (Block.chunk memory) :=
    List.mem_map_of_mem hmem
  have houtside := hposition.notLive hrepresents.layout hchunk
  have hdata := haddress block hmem
  have hlen := hroom block hmem
  simp only [data, finish] at houtside hdata hlen
  omega

/-- Every step keeps the invariant. -/
theorem HeapStep.invariant {state state' : HeapState}
    (hstep : HeapStep heap size (NotExhausted heap) state state')
    (hinvariant : Invariant heap size state free) :
    ∃ free', Invariant heap size state' free' := by
  cases hstep with
  | @alloc memory memory' live len p hlen hcall =>
      rcases hinvariant.represents.heapAlloc len with ⟨hfull, _⟩ |
        ⟨front, chunk, back, memory'', _, _, hfits, hreturn, hresult⟩
      · rw [hfull] at hcall
        simp at hcall
      rw [hreturn, Except.ok.injEq, Prod.mk.injEq] at hcall
      obtain ⟨rfl, rfl⟩ := hcall
      have hlong : len ≤ chunkLen len := le_max_left _ _
      exact ⟨_, hinvariant.allocate (hlong.trans (Chunk.len_le_taken hfits)) hresult⟩
  | @free memory memory' front back block hallowed hcall =>
      obtain ⟨memory'', free', hreturn, hresult⟩ := hinvariant.deallocate hallowed
      rw [hcall, Except.ok.injEq] at hreturn
      rw [hreturn]
      exact ⟨free', hresult⟩
  | @write memory memory' live hsame => exact ⟨free, hinvariant.write hsame⟩

theorem HeapRun.invariant {initial state : HeapState}
    (hrun : HeapRun heap size (NotExhausted heap) initial state)
    (hinitial : Invariant heap size initial free) :
    ∃ free', Invariant heap size state free' := by
  induction hrun with
  | refl => exact ⟨free, hinitial⟩
  | tail _ hstep ih =>
      obtain ⟨free', hinvariant⟩ := ih
      exact hstep.invariant hinvariant

theorem Layout.ascending_starts {live : List Chunk}
    (hlayout : Layout heap size free live) :
    (free.map Chunk.start).Pairwise (· < ·) := by
  refine List.pairwise_map.mpr (hlayout.ascending.imp fun hbefore => ?_)
  simp only [Before, finish, sizeofSize] at hbefore
  omega

theorem Invariant.safe {state : HeapState} (hinvariant : Invariant heap size state free) :
    HeapSafe heap size (NotExhausted heap) state where
  list := by
    have hlayout := hinvariant.represents.layout
    refine ⟨free, hinvariant.represents.chain, fun chunk hmem => ?_,
      hlayout.ascending_starts, hlayout.disjoint, fun chunk hmem => ?_⟩
    · exact hinvariant.represents.sizes chunk (List.mem_append_left _ hmem)
    · exact ⟨(hlayout.inside chunk hmem).low, (hlayout.inside chunk hmem).high⟩
  room := fun block hmem =>
    ⟨hinvariant.address block hmem ▸ Nat.le_add_left _ _, hinvariant.room block hmem⟩
  alloc_returns := fun len _ => by
    rcases hinvariant.represents.heapAlloc len with ⟨hfull, _⟩ |
      ⟨_, _, _, _, _, _, _, hreturn, _⟩
    · exact Or.inr hfull
    · exact Or.inl ⟨_, hreturn⟩
  fresh := fun len _ p memory' hcall block hmem heq => by
    rcases hinvariant.represents.heapAlloc len with ⟨hfull, _⟩ |
      ⟨_, chunk, _, _, _, _, _, hreturn, hresult⟩
    · rw [hfull] at hcall
      simp at hcall
    rw [hreturn, Except.ok.injEq, Prod.mk.injEq] at hcall
    have hlive := (List.pairwise_append.mp hresult.layout.disjoint).2.1
    have hapart := (disjoint_cons.mp hlive).1 _ (List.mem_map_of_mem hmem)
    have hdata := hinvariant.address block hmem
    rw [← heq, ← hcall.1] at hdata
    simp only [Apart, finish, data, sizeofSize] at hapart hdata
    omega
  free_returns := fun hallowed block hmem => by
    obtain ⟨front, back, hsplit⟩ := List.append_of_mem hmem
    obtain ⟨memory, live⟩ := state
    subst hsplit
    obtain ⟨memory', _, hreturn, _⟩ := hinvariant.deallocate hallowed
    exact ⟨memory', hreturn⟩

/-- In every run that frees no block while every byte of the heap is in use,
the heap stays safe. -/
theorem heapSafe_of_run {state state' : MemoryState} {maxSize : ℕ} {reached : HeapState}
    (hstate : state.WellFormed)
    (hcreate : heapCreate state memory maxSize = .ok (heap, state', memory'))
    (hrun : HeapRun heap (u32 (pageEnd maxSize)) (NotExhausted heap) ⟨memory', []⟩ reached) :
    HeapSafe heap (u32 (pageEnd maxSize)) (NotExhausted heap) reached := by
  obtain ⟨hrecord, hrepresents⟩ := heapCreate_eq_ok hstate hcreate
  obtain ⟨free, hinvariant⟩ := hrun.invariant
    ⟨hrecord, hrepresents, by simp, by simp⟩
  exact hinvariant.safe

/-- A heap of one page. -/
theorem heapCreate_onePage : ∃ state' memory',
    heapCreate firmwarePageState (fun _ => 0) 4096 = .ok (4096, state', memory') ∧
      Represents memory' 4096 4096 [⟨4112, 4076⟩] [] := by
  have hallocate : memoryAllocate firmwarePageState (u32 (pageEnd 4096)) .loaderHeap =
      .ok (4096, _) :=
    memoryAllocate_of_steps (by decide)
      (show pageStart (u32 (pageEnd 4096)) / archPagesize = 1 by decide)
      (show memoryFindAvailablePages firmwarePageState 1 = .ok 1 from rfl) rfl (by decide)
  obtain ⟨state', memory', hcreate⟩ : ∃ state' memory',
      heapCreate firmwarePageState (fun _ => 0) 4096 = .ok (4096, state', memory') := by
    simp only [heapCreate, hallocate, ok_bind]
    exact ⟨_, _, rfl⟩
  exact ⟨state', memory', hcreate, (heapCreate_eq_ok firmwarePageState_wellFormed hcreate).2⟩

/-- A request that the only free chunk can meet. -/
theorem Represents.alloc_single {chunk : Chunk} {live : List Chunk} {len : ℕ}
    (hrepresents : Represents memory heap size [chunk] live) (hfits : chunkLen len ≤ chunk.size) :
    ∃ memory', Heap.heapAlloc memory heap len =
        .ok ((chunk.taken (chunkLen len)).data, memory') ∧
      Represents memory' heap size (chunk.remainder (chunkLen len))
        (chunk.taken (chunkLen len) :: live) := by
  rcases hrepresents.heapAlloc len with ⟨_, hsmall⟩ |
    ⟨front, best, back, memory', hfree, _, _, hcall, hresult⟩
  · exact absurd (hsmall chunk List.mem_cons_self) (not_lt.mpr hfits)
  · rcases List.singleton_eq_append_iff.mp hfree with ⟨rfl, hback⟩ | ⟨_, hback⟩
    · obtain ⟨rfl, rfl⟩ := List.cons_eq_cons.mp hback
      rw [List.nil_append, List.append_nil] at hresult
      exact ⟨memory', hcall, hresult⟩
    · exact absurd hback (List.cons_ne_nil _ _)

/-- Two requests are met from one page, and the first block is given back. -/
theorem heapSafe_of_run_onePage :
    ∃ memory, HeapSafe 4096 4096 (NotExhausted 4096) ⟨memory, [⟨5116, 1024⟩]⟩ := by
  obtain ⟨state', memory, hcreate, hrepresents⟩ := heapCreate_onePage
  obtain ⟨first, hfirst, hrepresents⟩ :=
    @Represents.alloc_single _ _ _ _ _ 2048 hrepresents (by decide)
  obtain ⟨second, hsecond, hrepresents⟩ :=
    @Represents.alloc_single _ _ _ ⟨4112, 2024⟩ _ 1024 hrepresents (by decide)
  have hexhausted : NotExhausted 4096 second := by
    rw [NotExhausted, Ne, hrepresents.chain.start_eq_stop_iff]
    decide
  obtain ⟨-, -, third, -, -, -, hthird, -⟩ :=
    @Represents.heapFree _ _ ⟨6140, 2048⟩ _ _ [⟨5112, 1024⟩] [] (by decide) hrepresents
  have hrun : HeapRun 4096 (u32 (pageEnd 4096)) (NotExhausted 4096) ⟨memory, []⟩
      ⟨third, [⟨5116, 1024⟩] ++ []⟩ :=
    ((Relation.ReflTransGen.single (.alloc (by norm_num) hfirst)).tail
      (.alloc (by norm_num) hsecond)).tail
      (@HeapStep.free _ _ _ second third [⟨5116, 1024⟩] [] ⟨6144, 2048⟩ hexhausted hthird)
  exact ⟨third, heapSafe_of_run firmwarePageState_wellFormed hcreate hrun⟩

/-- A chunk that is its own successor makes the list endless. -/
theorem not_heapSafe_of_selfLinked {allowed : Memory → Prop} {state : HeapState}
    {start : ℕ} (hhead : heapFreelist state.memory heap = start) (hne : start ≠ 0)
    (hself : chunkNext state.memory start = start) :
    ¬ HeapSafe heap size allowed state := by
  intro hsafe
  obtain ⟨free, hchain, _⟩ := hsafe.list
  rw [hhead] at hchain
  cases free with
  | nil => exact hne (chain_nil.mp hchain)
  | cons chunk rest =>
      obtain ⟨rfl, _, hrest⟩ := chain_cons.mp hchain
      rw [hself] at hrest
      have hlength := congrArg List.length (hchain.unique hrest)
      simp at hlength

/-- A request for exactly the last free chunk empties the list. -/
theorem Represents.alloc_last {chunk : Chunk} {live : List Chunk}
    (hrepresents : Represents memory heap size [chunk] live) :
    ∃ memory', Heap.heapAlloc memory heap chunk.size = .ok (chunk.data, memory') ∧
      Represents memory' heap size [] (chunk :: live) := by
  have hroom : sizeofFreelist - sizeofSize ≤ chunk.size :=
    (hrepresents.layout.inside chunk (by simp)).room
  have hlen : chunkLen chunk.size = chunk.size := max_eq_left hroom
  have hwhole : chunk.size < chunk.size + sizeofFreelist :=
    Nat.lt_add_of_pos_right (by decide)
  obtain ⟨memory', hcall, hresult⟩ := hrepresents.alloc_single hlen.le
  rw [hlen, Chunk.taken, if_pos hwhole] at hcall hresult
  rw [Chunk.remainder, if_pos hwhole] at hresult
  exact ⟨memory', hcall, hresult⟩

/-- The whole data area is taken by one block and given back. -/
theorem exhausted_free_not_heapSafe :
    ¬ ∀ (state state' : MemoryState) (memory memory' : Memory) (maxSize heap : ℕ)
      (reached : HeapState), state.WellFormed →
      heapCreate state memory maxSize = .ok (heap, state', memory') →
      HeapRun heap (u32 (pageEnd maxSize)) (fun _ => True) ⟨memory', []⟩ reached →
      HeapSafe heap (u32 (pageEnd maxSize)) (fun _ => True) reached := by
  intro hall
  obtain ⟨state', memory, hcreate, hrepresents⟩ := heapCreate_onePage
  obtain ⟨taken, halloc, hexhausted⟩ := hrepresents.alloc_last
  obtain ⟨freed, hfree, hhead, hself⟩ :=
    hexhausted.heapFree_exhausted List.mem_cons_self
  have hstep : HeapStep 4096 (u32 (pageEnd 4096)) (fun _ => True)
      ⟨taken, [] ++ ⟨_, 4076⟩ :: []⟩ ⟨freed, [] ++ []⟩ := .free trivial hfree
  have hrun : HeapRun 4096 (u32 (pageEnd 4096)) (fun _ => True) ⟨memory, []⟩ ⟨freed, []⟩ :=
    .tail (.single (.alloc (by norm_num) halloc)) hstep
  exact not_heapSafe_of_selfLinked hhead (by decide) hself
    (hall _ _ _ _ _ _ _ firmwarePageState_wellFormed hcreate hrun)

end GeexOS.Heap
