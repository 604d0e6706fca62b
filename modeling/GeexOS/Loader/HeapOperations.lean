import GeexOS.Loader.HeapLayout

/-!
# What the heap's operations do

The allocation takes the chunk that fits best and hands out its upper end; the
deallocation puts a chunk back at its place and joins it with its neighbours.
-/

namespace GeexOS.Heap

open GeexOS.Words
open GeexOS.Halting
open GeexOS.ByteMemory
open GeexOS.Linked
open Chunk

variable {heap maxSize len value target : ℕ} {chunk other lower upper : Chunk}
variable {free live front back rest seen tail : List Chunk}
variable {memory memory' : Memory}

/-! ## Field updates -/

/-- `chunk->nx` is the word behind the size. -/
theorem Inside.nextSlot_eq (hchunk : Inside heap maxSize chunk)
    (hbound : heap + maxSize < 2 ^ 32) : nextSlot chunk.start = chunk.data := by
  have hhigh := hchunk.high
  simp only [finish] at hhigh
  exact u32_of_lt (by omega)

theorem chunkNext_setNext_self (hvalue : value < 2 ^ 32) :
    chunkNext (setNext memory chunk.start value) chunk.start = value :=
  load32_store32_self hvalue

theorem chunkNext_setNext (hbound : heap + maxSize < 2 ^ 32)
    (hchunk : Inside heap maxSize chunk) (hother : Inside heap maxSize other)
    (hapart : chunk.Apart other) :
    chunkNext (setNext memory chunk.start value) other.start =
      chunkNext memory other.start := by
  have hroom := hchunk.room
  have hroom' := hother.room
  simp only [chunkNext, setNext, hchunk.nextSlot_eq hbound, hother.nextSlot_eq hbound]
  apply load32_store32_of_disjoint
  simp only [Apart, finish, data, sizeofSize, sizeofFreelist] at hapart hroom hroom' ⊢
  omega

theorem chunkSize_setNext (hbound : heap + maxSize < 2 ^ 32)
    (hchunk : Inside heap maxSize chunk) (hapart : chunk ≠ other → chunk.Apart other) :
    chunkSize (setNext memory chunk.start value) other.start =
      chunkSize memory other.start := by
  have hroom := hchunk.room
  simp only [setNext, hchunk.nextSlot_eq hbound]
  apply load32_store32_of_disjoint
  by_cases heq : chunk = other
  · rw [heq]
    exact Or.inl le_rfl
  · have hapart := hapart heq
    simp only [Apart, finish, data, sizeofSize, sizeofFreelist] at hapart hroom ⊢
    omega

theorem heapFreelist_setNext (hbound : heap + maxSize < 2 ^ 32)
    (hchunk : Inside heap maxSize chunk) :
    heapFreelist (setNext memory chunk.start value) heap = heapFreelist memory heap := by
  have hlow := hchunk.low
  simp only [setNext, hchunk.nextSlot_eq hbound]
  refine load32_store32_of_disjoint (Or.inl ?_)
  simp only [freelistSlot, data, sizeofHeap, sizeofSize] at hlow ⊢
  omega

theorem chunkNext_setSize (hbound : heap + maxSize < 2 ^ 32)
    (hother : Inside heap maxSize other) (hapart : chunk.start ≠ other.start →
      chunk.Apart other) (hroom : sizeofFreelist - sizeofSize ≤ chunk.size) :
    chunkNext (setSize memory chunk.start value) other.start =
      chunkNext memory other.start := by
  have hroom' := hother.room
  simp only [chunkNext, hother.nextSlot_eq hbound]
  apply load32_store32_of_disjoint
  by_cases heq : chunk.start = other.start
  · rw [heq]
    exact Or.inr le_rfl
  · have hapart := hapart heq
    simp only [Apart, finish, data, sizeofSize, sizeofFreelist] at hapart hroom hroom' ⊢
    omega

theorem chunkSize_setSize (chunk : Chunk) (hapart : chunk.Apart other) :
    chunkSize (setSize memory chunk.start value) other.start =
      chunkSize memory other.start := by
  apply load32_store32_of_disjoint
  simp only [Apart, finish, sizeofSize] at hapart
  omega

theorem heapFreelist_setSize (chunk : Chunk) (hlow : heap + sizeofHeap ≤ chunk.start) :
    heapFreelist (setSize memory chunk.start value) heap = heapFreelist memory heap := by
  refine load32_store32_of_disjoint (Or.inl ?_)
  simp only [freelistSlot, sizeofHeap] at hlow ⊢
  omega

theorem heapFreelist_setFreelist (hvalue : value < 2 ^ 32) :
    heapFreelist (setFreelist memory heap value) heap = value :=
  load32_store32_self hvalue

theorem chunkSize_setFreelist (hother : Inside heap maxSize other) :
    chunkSize (setFreelist memory heap value) other.start =
      chunkSize memory other.start := by
  have hlow := hother.low
  refine load32_store32_of_disjoint (Or.inr ?_)
  simp only [freelistSlot, sizeofHeap] at hlow ⊢
  omega

theorem chunkNext_setFreelist (hbound : heap + maxSize < 2 ^ 32)
    (hother : Inside heap maxSize other) :
    chunkNext (setFreelist memory heap value) other.start =
      chunkNext memory other.start := by
  have hlow := hother.low
  simp only [chunkNext, hother.nextSlot_eq hbound]
  refine load32_store32_of_disjoint (Or.inr ?_)
  simp only [freelistSlot, data, sizeofHeap, sizeofSize] at hlow ⊢
  omega

/-! ## A list under repair -/

/-- The links of `front` lead to `target` while those of `tail` are in order;
the free list is `front ++ tail` as soon as `target` is the start of `tail`. -/
structure Pending (memory : Memory) (heap maxSize : ℕ) (front : List Chunk)
    (target : ℕ) (tail live : List Chunk) : Prop where
  layout : Layout heap maxSize (front ++ tail) live
  sizes : ∀ chunk ∈ front ++ tail ++ live, chunkSize memory chunk.start = chunk.size
  front_path : Path (chunkNext memory) (heapFreelist memory heap)
    (front.map Chunk.start) target
  tail_path : Path (chunkNext memory) (firstStart tail) (tail.map Chunk.start) 0

theorem Layout.zero_notMem (hlayout : Layout heap maxSize free live) :
    0 ∉ free.map Chunk.start := by
  intro hmem
  obtain ⟨chunk, hchunk, hzero⟩ := List.mem_map.mp hmem
  exact hlayout.start_pos (List.mem_append_left live hchunk) hzero

theorem firstStart_of_path {start : ℕ}
    (hpath : Path (chunkNext memory) start (tail.map Chunk.start) 0) :
    start = firstStart tail := by
  cases tail with
  | nil => exact hpath
  | cons chunk rest => exact hpath.1

theorem Pending.represents (hpending : Pending memory heap maxSize front
    (firstStart tail) tail live) : Represents memory heap maxSize (front ++ tail) live where
  layout := hpending.layout
  sizes := hpending.sizes
  chain := by
    refine ⟨?_, hpending.layout.zero_notMem⟩
    rw [List.map_append]
    exact path_append.mpr ⟨_, hpending.front_path, hpending.tail_path⟩

theorem Represents.pending (hrepresents : Represents memory heap maxSize (front ++ tail) live) :
    Pending memory heap maxSize front (firstStart tail) tail live := by
  have hpath := hrepresents.chain.path
  rw [List.map_append] at hpath
  obtain ⟨middle, hfront, htail⟩ := path_append.mp hpath
  have hmiddle := firstStart_of_path htail
  rw [hmiddle] at hfront htail
  exact ⟨hrepresents.layout, hrepresents.sizes, hfront, htail⟩

theorem firstStart_lt (hlayout : Layout heap maxSize (front ++ tail) live) :
    firstStart tail < 2 ^ 32 := by
  cases tail with
  | nil => exact Nat.two_pow_pos 32
  | cons chunk rest =>
      have hlt : chunk.finish < 2 ^ 32 := hlayout.finish_lt (by simp)
      simp only [finish] at hlt
      simp only [firstStart]
      omega

theorem lastStart_concat : lastStart (front ++ [chunk]) = chunk.start := by
  simp [lastStart, firstStart]

/-- The chunks of a list in order, one apart from those around it. -/
theorem Layout.apart_middle
    (hlayout : Layout heap maxSize (front ++ chunk :: back) live)
    (hmem : other ∈ front ++ back ++ live) : chunk.Apart other :=
  (disjoint_cons.mp (hlayout.disjoint.perm (perm_front front back live chunk))).1 other hmem

theorem Layout.inside_middle
    (hlayout : Layout heap maxSize (front ++ chunk :: back) live) :
    Inside heap maxSize chunk ∧
      ∀ other ∈ front ++ back ++ live, Inside heap maxSize other := by
  have hperm := perm_front front back live chunk
  refine ⟨hlayout.inside chunk (by simp), fun other hmem => ?_⟩
  exact hlayout.inside other (hperm.mem_iff.mpr (List.mem_cons_of_mem _ hmem))

theorem forall_middle {property : Chunk → Prop} :
    (∀ other ∈ front ++ chunk :: back ++ live, property other) ↔
      property chunk ∧ ∀ other ∈ front ++ back ++ live, property other := by
  simp only [(perm_front front back live chunk).mem_iff, List.forall_mem_cons]

/-- Paths are kept by writes that change no link on them. -/
theorem path_congr {start finish : ℕ} {chunks : List Chunk}
    (hpath : Path (chunkNext memory) start (chunks.map Chunk.start) finish)
    (hnext : ∀ other ∈ chunks,
      chunkNext memory' other.start = chunkNext memory other.start) :
    Path (chunkNext memory') start (chunks.map Chunk.start) finish := by
  refine hpath.congr fun start hmem => ?_
  obtain ⟨other, hother, rfl⟩ := List.mem_map.mp hmem
  exact hnext other hother

/-- `chunk->nx = …` for the last chunk of `front` links the two halves. -/
theorem Pending.setNext
    (hpending : Pending memory heap maxSize (front ++ [chunk]) target tail live) :
    Represents (setNext memory chunk.start (firstStart tail)) heap maxSize
      (front ++ chunk :: tail) live := by
  obtain ⟨hlayout, hsizes, hfront, htail⟩ := hpending
  have hmiddle : front ++ [chunk] ++ tail = front ++ chunk :: tail := by simp
  rw [hmiddle] at hlayout hsizes
  obtain ⟨hchunk, hothers⟩ := hlayout.inside_middle
  have hbound := hlayout.bound
  have hapart : ∀ other ∈ front ++ tail ++ live, chunk.Apart other :=
    fun other hmem => hlayout.apart_middle hmem
  have hnext : ∀ other ∈ front ++ tail, chunkNext (Heap.setNext memory chunk.start
      (firstStart tail)) other.start = chunkNext memory other.start := fun other hmem =>
    chunkNext_setNext hbound hchunk (hothers other (List.mem_append_left _ hmem))
      (hapart other (List.mem_append_left _ hmem))
  refine ⟨hlayout, forall_middle.mpr ⟨?_, fun other hmem => ?_⟩, ?_,
    hlayout.zero_notMem⟩
  · rw [chunkSize_setNext hbound hchunk (fun hne => absurd rfl hne)]
    exact hsizes chunk (by simp)
  · rw [chunkSize_setNext hbound hchunk (fun _ => hapart other hmem)]
    exact (forall_middle.mp hsizes).2 other hmem
  · rw [heapFreelist_setNext hbound hchunk]
    rw [List.map_append] at hfront ⊢
    obtain ⟨middle, hfront, hmiddle, _⟩ := path_append.mp hfront
    refine path_append.mpr ⟨middle, ?_, hmiddle, ?_⟩
    · exact path_congr hfront fun other hmem =>
        hnext other (List.mem_append_left tail hmem)
    · rw [chunkNext_setNext_self (firstStart_lt hlayout.take)]
      exact path_congr htail fun other hmem =>
        hnext other (List.mem_append_right front hmem)

/-- `heap->Freelist = …` links the list to its head. -/
theorem Pending.setFreelist
    (hpending : Pending memory heap maxSize [] target tail live) :
    Represents (setFreelist memory heap (firstStart tail)) heap maxSize tail live := by
  obtain ⟨hlayout, hsizes, _, htail⟩ := hpending
  refine ⟨hlayout, fun other hmem => ?_, ?_, hlayout.zero_notMem⟩
  · rw [chunkSize_setFreelist (hlayout.inside other hmem)]
    exact hsizes other hmem
  · rw [heapFreelist_setFreelist (firstStart_lt hlayout)]
    exact path_congr htail fun other hmem => chunkNext_setFreelist hlayout.bound
      (hlayout.inside other (List.mem_append_left live hmem))

/-- The sizes of two neighbours and the header between them add up. -/
theorem adjacent_iff (hlayout : Layout heap maxSize free live)
    (hlower : lower ∈ free ++ live) (hsize : chunkSize memory lower.start = lower.size) :
    adjacent memory lower.start upper.start = true ↔ lower.finish = upper.start := by
  have hfinish : u32 (nextSlot lower.start + chunkSize memory lower.start) =
      lower.finish := by
    rw [Heap.nextSlot_eq hlayout hlower, hsize]
    exact u32_of_lt (hlayout.finish_lt hlower)
  simp [adjacent, hfinish]

/-- Joining the first two chunks of the tail. -/
theorem Pending.assimilate
    (hpending : Pending memory heap maxSize front target (lower :: upper :: back) live)
    (hmeet : lower.finish = upper.start) :
    Pending (assimilate memory lower.start upper.start) heap maxSize front target
      (lower.join upper :: back) live := by
  obtain ⟨hlayout, hsizes, hfront, hstart, _, hback⟩ := hpending
  have hbound := hlayout.bound
  obtain ⟨hlower, hothers⟩ := hlayout.inside_middle
  have hupper := hothers upper (by simp)
  have hapart : ∀ other ∈ front ++ upper :: back ++ live, lower.Apart other :=
    fun other hmem => hlayout.apart_middle hmem
  have hrest : ∀ other ∈ front ++ back ++ live, other ∈ front ++ upper :: back ++ live :=
    fun other hmem => (perm_front front back live upper).mem_iff.mpr
      (List.mem_cons_of_mem _ hmem)
  have hlayout' := hlayout.join hmeet
  obtain ⟨hsizeLower, hsizesRest⟩ := forall_middle.mp hsizes
  have hsum : u32 (chunkSize memory lower.start +
      u32 (chunkSize memory upper.start + sizeofSize)) = (lower.join upper).size := by
    have hlt : (lower.join upper).finish < 2 ^ 32 := hlayout'.finish_lt (by simp)
    rw [hsizeLower, hsizesRest upper (by simp)]
    simp only [finish, Chunk.join, u32] at hlt ⊢
    omega
  have hlt : (lower.join upper).size < 2 ^ 32 := by
    rw [← hsum]
    exact u32_lt _
  -- the two writes are to the lower chunk's own words
  have hnext : ∀ other ∈ front ++ upper :: back ++ live,
      chunkNext (Heap.assimilate memory lower.start upper.start) other.start =
        chunkNext memory other.start := by
    intro other hmem
    rw [Heap.assimilate, chunkNext_setNext hbound hlower (hothers other hmem)
      (hapart other hmem), chunkNext_setSize hbound (hothers other hmem)
      (fun _ => hapart other hmem) hlower.room]
  have hnextLower : chunkNext (Heap.assimilate memory lower.start upper.start) lower.start =
      chunkNext memory upper.start := by
    rw [Heap.assimilate, chunkNext_setNext_self (by exact load32_lt),
      chunkNext_setSize hbound hupper (fun _ => hapart upper (by simp)) hlower.room]
  refine ⟨hlayout', forall_middle.mpr ⟨?_, fun other hmem => ?_⟩, ?_, rfl, ?_⟩
  · simp only [Heap.assimilate, Chunk.join]
    rw [chunkSize_setNext hbound hlower (fun hne => absurd rfl hne), hsum]
    exact load32_store32_self hlt
  · rw [Heap.assimilate, chunkSize_setNext hbound hlower
      (fun _ => hapart other (hrest other hmem)),
      chunkSize_setSize lower (hapart other (hrest other hmem))]
    exact hsizesRest other (hrest other hmem)
  · rw [Heap.assimilate, heapFreelist_setNext hbound hlower,
      heapFreelist_setSize lower hlower.low]
    refine path_congr hfront fun other hmem => hnext other ?_
    exact List.mem_append_left live (List.mem_append_left _ hmem)
  · simp only [Chunk.join]
    rw [hnextLower]
    refine path_congr hback fun other hmem => hnext other ?_
    exact List.mem_append_left live
      (List.mem_append_right front (List.mem_cons_of_mem upper hmem))

/-- A chunk in front of a list, joined with its head if they are adjacent. -/
def absorb (chunk : Chunk) : List Chunk → List Chunk
  | [] => [chunk]
  | upper :: back =>
      if chunk.finish = upper.start then chunk.join upper :: back
      else chunk :: upper :: back

@[simp]
theorem firstStart_absorb (chunk : Chunk) (back : List Chunk) :
    firstStart (absorb chunk back) = chunk.start := by
  cases back with
  | nil => rfl
  | cons upper back =>
      simp only [absorb]
      split <;> rfl

/-- The comparison and the assimilation of `connect`. -/
theorem Pending.absorb
    (hpending : Pending memory heap maxSize front target (lower :: upper :: back) live) :
    Pending (if adjacent memory lower.start upper.start = true then
        Heap.assimilate memory lower.start upper.start else memory)
      heap maxSize front target (absorb lower (upper :: back)) live := by
  have hlower : lower ∈ front ++ lower :: upper :: back ++ live := by simp
  have hadjacent : adjacent memory lower.start upper.start = true ↔
      lower.finish = upper.start :=
    adjacent_iff hpending.layout hlower (hpending.sizes lower hlower)
  simp only [Heap.absorb, hadjacent]
  split
  · exact hpending.assimilate ‹_›
  · exact hpending

/-! ## Taking a chunk off the list -/

theorem Represents.drop (hrepresents : Represents memory heap maxSize
      (front ++ chunk :: back) live) :
    Pending memory heap maxSize front chunk.start back (chunk :: live) ∧
      chunkNext memory chunk.start = firstStart back := by
  obtain ⟨hlayout, hsizes, hfront, _, hback⟩ := hrepresents.pending
  have hnext := firstStart_of_path hback
  rw [hnext] at hback
  refine ⟨⟨hlayout.take, fun other hmem => ?_, hfront, hback⟩, hnext⟩
  have hperm : (front ++ back ++ chunk :: live).Perm (front ++ chunk :: back ++ live) :=
    List.perm_middle.trans (perm_front front back live chunk).symm
  exact hsizes other (hperm.mem_iff.mp hmem)

theorem Represents.disconnect (hrepresents : Represents memory heap maxSize
      (front ++ chunk :: back) live) :
    Represents (disconnect memory heap chunk.start (lastStart front)) heap maxSize
      (front ++ back) (chunk :: live) := by
  obtain ⟨hpending, hnext⟩ := hrepresents.drop
  rcases List.eq_nil_or_concat front with rfl | ⟨earlier, last, rfl⟩
  · have hnull : lastStart [] = 0 := rfl
    rw [Heap.disconnect, hnull, if_neg (not_not.mpr rfl), hnext]
    exact hpending.setFreelist
  · rw [List.concat_eq_append] at hpending hrepresents ⊢
    have hlast : last.start ≠ 0 := hrepresents.layout.start_pos (by simp)
    rw [lastStart_concat, Heap.disconnect, if_pos hlast, hnext,
      List.append_assoc, List.singleton_append]
    exact hpending.setNext

/-- A live chunk lies apart from all others. -/
theorem Layout.apart_live (hlayout : Layout heap maxSize free (chunk :: live))
    (hmem : other ∈ free ++ live) : chunk.Apart other :=
  (disjoint_cons.mp (hlayout.disjoint.perm List.perm_middle)).1 other hmem

theorem Layout.size_lt (hlayout : Layout heap maxSize free live) (hmem : chunk ∈ free ++ live) :
    chunk.size < 2 ^ 32 := by
  have hlt := hlayout.finish_lt hmem
  simp only [finish] at hlt
  omega

/-- A size that is written to a chunk changes no link of the free list. -/
theorem path_setSize {start : ℕ} (hlayout : Layout heap maxSize free live)
    (hinside : Inside heap maxSize chunk)
    (hapart : ∀ other ∈ free, chunk.start ≠ other.start → chunk.Apart other)
    (hpath : Path (chunkNext memory) start (free.map Chunk.start) 0) :
    Path (chunkNext (setSize memory chunk.start value)) start (free.map Chunk.start) 0 := by
  refine path_congr hpath fun other hmem => ?_
  exact chunkNext_setSize hlayout.bound (hlayout.inside other (List.mem_append_left live hmem))
    (hapart other hmem) hinside.room

/-- Writing the sizes of a chunk on the list and of a live one, where the others are
in order. -/
theorem represents_setSizes
    (hlayout : Layout heap maxSize (front ++ lower :: back) (upper :: live))
    (hsizes : ∀ other ∈ front ++ back ++ live, chunkSize memory other.start = other.size)
    (hpath : Path (chunkNext memory) (heapFreelist memory heap)
      ((front ++ lower :: back).map Chunk.start) 0) :
    Represents (setSize (setSize memory upper.start upper.size) lower.start lower.size) heap
      maxSize (front ++ lower :: back) (upper :: live) := by
  obtain ⟨hlower, hothers⟩ := hlayout.inside_middle
  have hupper := hothers upper (by simp)
  have hlowerSize : lower.size < 2 ^ 32 := hlayout.size_lt (by simp)
  have hupperSize : upper.size < 2 ^ 32 := hlayout.size_lt (by simp)
  refine ⟨hlayout, forall_middle.mpr ⟨load32_store32_self hlowerSize, fun other hmem => ?_⟩,
    ?_, hlayout.zero_notMem⟩
  · rw [chunkSize_setSize lower (hlayout.apart_middle hmem)]
    rw [List.perm_middle.mem_iff, List.mem_cons] at hmem
    rcases hmem with rfl | hmem
    · exact load32_store32_self hupperSize
    · have hlisted : other ∈ front ++ lower :: back ++ live :=
        (perm_front front back live lower).mem_iff.mpr (List.mem_cons_of_mem _ hmem)
      rw [chunkSize_setSize upper (hlayout.apart_live hlisted)]
      exact hsizes other hmem
  · rw [heapFreelist_setSize lower hlower.low, heapFreelist_setSize upper hupper.low]
    refine path_setSize hlayout hlower (fun other hmem hne => ?_)
      (path_setSize hlayout hupper (fun other hmem _ => ?_) hpath)
    · refine hlayout.apart_middle (List.mem_append_left _ ?_)
      rw [List.perm_middle.mem_iff, List.mem_cons] at hmem
      exact hmem.resolve_left fun heq => hne (heq ▸ rfl)
    · exact hlayout.apart_live (List.mem_append_left live hmem)

/-- The sizes written when a chunk is cut in two. -/
theorem Represents.split (hrepresents : Represents memory heap maxSize
      (front ++ chunk :: back) live)
    (hlen : sizeofFreelist - sizeofSize ≤ len)
    (hroom : len + sizeofFreelist ≤ chunk.size) :
    Represents (setSize (setSize memory (chunk.upperPart len).start len)
        chunk.start (chunk.lowerPart len).size) heap maxSize
      (front ++ chunk.lowerPart len :: back) (chunk.upperPart len :: live) := by
  have hstarts : (front ++ chunk.lowerPart len :: back).map Chunk.start =
      (front ++ chunk :: back).map Chunk.start := by simp [lowerPart]
  refine represents_setSizes (hrepresents.layout.split hlen hroom)
    (forall_middle.mp hrepresents.sizes).2 ?_
  rw [hstarts]
  exact hrepresents.chain.path

/-! ## Walks over the list -/

/-- A list in a 32-bit address space is short enough for the walks. -/
theorem Represents.length_lt (hrepresents : Represents memory heap maxSize free live) :
    free.length < 2 ^ 32 := by
  have hnodup : (0 :: free.map Chunk.start).Nodup :=
    List.nodup_cons.mpr ⟨hrepresents.layout.zero_notMem, hrepresents.chain.nodup⟩
  have hlength : (0 :: free.map Chunk.start).length ≤ 2 ^ 32 :=
    length_le_of_nodup hnodup fun start hmem => by
      rcases List.mem_cons.mp hmem with rfl | hmem
      · exact Nat.two_pow_pos 32
      · obtain ⟨chunk, hchunk, rfl⟩ := List.mem_map.mp hmem
        have hlt := hrepresents.layout.finish_lt (List.mem_append_left live hchunk)
        simp only [finish] at hlt
        omega
  simp only [List.length_cons, List.length_map] at hlength
  omega

/-- The walk of the deallocation stops at the first chunk behind the new one. -/
theorem insertLoop_eq_ok (fpnew : ℕ) (seen : List Chunk) {fuel start : ℕ}
    (hchain : Chain (chunkNext memory) 0 start (rest.map Chunk.start))
    (hfuel : rest.length < fuel) :
    ∃ front back, rest = front ++ back ∧ (∀ other ∈ front, other.start < fpnew) ∧
      (∀ other ∈ back.head?, fpnew ≤ other.start) ∧
      insertLoop memory fpnew fuel start (lastStart seen) =
        .ok (firstStart back, lastStart (seen ++ front)) := by
  induction rest generalizing fuel start seen with
  | nil =>
      obtain ⟨fuel, rfl⟩ : ∃ less, fuel = less + 1 := ⟨fuel - 1, by omega⟩
      refine ⟨[], [], rfl, by simp, by simp, ?_⟩
      rw [List.map_nil, chain_nil] at hchain
      rw [insertLoop, if_pos hchain, List.append_nil]
      rfl
  | cons chunk rest ih =>
      obtain ⟨fuel, rfl⟩ : ∃ less, fuel = less + 1 := ⟨fuel - 1, by omega⟩
      obtain ⟨rfl, hne, hrest⟩ := chain_cons.mp hchain
      by_cases hlt : chunk.start < fpnew
      · obtain ⟨front, back, rfl, hfront, hback, hloop⟩ :=
          ih (seen ++ [chunk]) hrest (Nat.lt_of_succ_lt_succ hfuel)
        refine ⟨chunk :: front, back, rfl, ?_, hback, ?_⟩
        · rintro other (_ | ⟨_, hmem⟩)
          · exact hlt
          · exact hfront other hmem
        · rw [lastStart_concat] at hloop
          rw [insertLoop, if_neg hne, if_pos hlt, hloop]
          simp
      · refine ⟨[], chunk :: rest, rfl, by simp, by simpa using hlt, ?_⟩
        rw [insertLoop, if_neg hne, if_neg hlt, List.append_nil]
        rfl

/-- The first chunk of exactly the size, or the first of the smallest larger
ones. -/
def Fits (len : ℕ) (front : List Chunk) (chunk : Chunk) (back : List Chunk) : Prop :=
  chunk.size = len ∧ (∀ other ∈ front, other.size ≠ len) ∨
    len < chunk.size ∧ (∀ other ∈ front, other.size < len ∨ chunk.size < other.size) ∧
      ∀ other ∈ back, other.size < len ∨ chunk.size ≤ other.size

/-- What the variables of the walk say about the chunks already seen. -/
inductive Closest (len : ℕ) (seen : List Chunk) : (s sfp1 sfp2 : ℕ) → Prop
  | none {sfp1 sfp2 : ℕ} (hsmall : ∀ other ∈ seen, other.size < len) :
      Closest len seen 0 sfp1 sfp2
  | some {front back : List Chunk} {chunk : Chunk} (hseen : seen = front ++ chunk :: back)
      (hlarge : len < chunk.size)
      (hfront : ∀ other ∈ front, other.size < len ∨ chunk.size < other.size)
      (hback : ∀ other ∈ back, other.size < len ∨ chunk.size ≤ other.size) :
      Closest len seen chunk.size chunk.start (lastStart front)

/-- One more chunk that is too small or no better. -/
theorem Closest.skip {s sfp1 sfp2 : ℕ} (hclosest : Closest len seen s sfp1 sfp2)
    (hskip : chunk.size < len ∨ s ≠ 0 ∧ s ≤ chunk.size) :
    Closest len (seen ++ [chunk]) s sfp1 sfp2 := by
  cases hclosest with
  | none hsmall =>
      refine .none fun other hmem => ?_
      rcases List.mem_append.mp hmem with hmem | hmem
      · exact hsmall other hmem
      · rw [List.mem_singleton.mp hmem]
        omega
  | @some front back best hseen hlarge hfront hback =>
      refine .some (show _ = front ++ best :: (back ++ [chunk]) by simp [hseen]) hlarge hfront ?_
      intro other hmem
      rcases List.mem_append.mp hmem with hmem | hmem
      · exact hback other hmem
      · rw [List.mem_singleton.mp hmem]
        omega

/-- One more chunk that is the best so far. -/
theorem Closest.take {s sfp1 sfp2 : ℕ} (hclosest : Closest len seen s sfp1 sfp2)
    (hlarge : len < chunk.size) (hbetter : s = 0 ∨ chunk.size < s) :
    Closest len (seen ++ [chunk]) chunk.size chunk.start (lastStart seen) := by
  refine .some (show seen ++ [chunk] = seen ++ chunk :: [] from rfl) hlarge ?_ (by simp)
  intro other hmem
  cases hclosest with
  | none hsmall => exact Or.inl (hsmall other hmem)
  | @some front back best hseen hlarge hfront hback =>
      rw [hseen, List.mem_append, List.mem_cons] at hmem
      rcases hmem with hmem | rfl | hmem
      · have hother := hfront other hmem
        omega
      · omega
      · have hother := hback other hmem
        omega

/-- What the walk of the allocation finds in a list. -/
inductive FoundIn (len : ℕ) (free : List Chunk) : Found → Prop
  | exact {front back : List Chunk} {chunk : Chunk} (hfree : free = front ++ chunk :: back)
      (hsize : chunk.size = len) (hfront : ∀ other ∈ front, other.size ≠ len) :
      FoundIn len free (.exact chunk.start (lastStart front))
  | closest {s sfp1 sfp2 : ℕ} (hclosest : Closest len free s sfp1 sfp2) :
      FoundIn len free (.closest s sfp1 sfp2)

theorem Closest.ne_len {s sfp1 sfp2 : ℕ} (hclosest : Closest len seen s sfp1 sfp2) :
    ∀ other ∈ seen, other.size ≠ len := by
  intro other hmem
  cases hclosest with
  | none hsmall => exact (hsmall other hmem).ne
  | @some front back best hseen hlarge hfront hback =>
      rw [hseen, List.mem_append, List.mem_cons] at hmem
      rcases hmem with hmem | rfl | hmem
      · have hother := hfront other hmem
        omega
      · exact hlarge.ne'
      · have hother := hback other hmem
        omega

theorem searchLoop_eq_ok (seen : List Chunk) {fuel start s sfp1 sfp2 : ℕ}
    (hchain : Chain (chunkNext memory) 0 start (rest.map Chunk.start))
    (hsizes : ∀ other ∈ rest, chunkSize memory other.start = other.size)
    (hclosest : Closest len seen s sfp1 sfp2) (hfuel : rest.length < fuel) :
    ∃ found, searchLoop memory len fuel start (lastStart seen) s sfp1 sfp2 = .ok found ∧
      FoundIn len (seen ++ rest) found := by
  induction rest generalizing fuel start seen s sfp1 sfp2 with
  | nil =>
      obtain ⟨fuel, rfl⟩ : ∃ less, fuel = less + 1 := ⟨fuel - 1, by omega⟩
      rw [List.map_nil, chain_nil] at hchain
      refine ⟨.closest s sfp1 sfp2, ?_, ?_⟩
      · rw [searchLoop, if_pos hchain]
      · rw [List.append_nil]
        exact .closest hclosest
  | cons chunk rest ih =>
      obtain ⟨fuel, rfl⟩ : ∃ less, fuel = less + 1 := ⟨fuel - 1, by omega⟩
      obtain ⟨rfl, hne, hrest⟩ := chain_cons.mp hchain
      have hsize := hsizes chunk List.mem_cons_self
      have hcontinue : ∀ {s sfp1 sfp2 : ℕ}, Closest len (seen ++ [chunk]) s sfp1 sfp2 →
          ∃ found, searchLoop memory len fuel (chunkNext memory chunk.start) chunk.start
            s sfp1 sfp2 = .ok found ∧ FoundIn len (seen ++ chunk :: rest) found := by
        intro s sfp1 sfp2 hclosest
        obtain ⟨found, hloop, hfound⟩ := ih (seen ++ [chunk]) hrest
          (fun other hmem => hsizes other (List.mem_cons_of_mem _ hmem)) hclosest
          (Nat.lt_of_succ_lt_succ hfuel)
        rw [lastStart_concat] at hloop
        rw [List.append_assoc, List.singleton_append] at hfound
        exact ⟨found, hloop, hfound⟩
      rw [searchLoop, if_neg hne, hsize]
      split
      · exact hcontinue (hclosest.skip (Or.inl ‹_›))
      split
      · exact ⟨_, rfl, .exact rfl ‹_› hclosest.ne_len⟩
      split
      · exact hcontinue (hclosest.take (by omega) ‹_›)
      · exact hcontinue (hclosest.skip (by omega))

/-! ## The operations -/

/-- The counters of the heap record may be written. -/
theorem Represents.increment (hrepresents : Represents memory heap maxSize free live)
    (counter : ℕ)
    (hlow : heap + 8 ≤ counter) (hhigh : counter + 4 ≤ heap + sizeofHeap) :
    Represents (increment memory counter) heap maxSize free live := by
  refine hrepresents.congr fun position hposition => store32_of_notMem ?_
  have hplace := hposition.notCounter hrepresents.layout
  omega

/-- The length that is looked for: a chunk has room for a link. -/
def chunkLen (len : ℕ) : ℕ := max len (sizeofFreelist - sizeofSize)

/-- What the caller gets of the chunk found for it: all of it if the rest would
be too small for a chunk. -/
def Chunk.taken (chunk : Chunk) (len : ℕ) : Chunk :=
  if chunk.size < len + sizeofFreelist then chunk else chunk.upperPart len

/-- What remains of it on the free list. -/
def Chunk.remainder (chunk : Chunk) (len : ℕ) : List Chunk :=
  if chunk.size < len + sizeofFreelist then [] else [chunk.lowerPart len]

theorem Closest.cases {s sfp1 sfp2 : ℕ} (hclosest : Closest len free s sfp1 sfp2) :
    (s = 0 ∧ ∀ other ∈ free, other.size < len) ∨
      ∃ front chunk back, free = front ++ chunk :: back ∧ Fits len front chunk back ∧
        len < chunk.size ∧ s = chunk.size ∧ sfp1 = chunk.start ∧
        sfp2 = lastStart front := by
  cases hclosest with
  | none hsmall => exact Or.inl ⟨rfl, hsmall⟩
  | @some front back chunk hfree hlarge hfront hback =>
      exact Or.inr ⟨front, chunk, back, hfree, Or.inr ⟨hlarge, hfront, hback⟩, hlarge,
        rfl, rfl, rfl⟩

theorem Represents.handOut_whole
    (hrepresents : Represents memory heap maxSize (front ++ chunk :: back) live)
    (hwhole : chunk.size < len + sizeofFreelist) :
    nextSlot chunk.start = (chunk.taken len).data ∧
      Represents (Heap.disconnect memory heap chunk.start (lastStart front)) heap maxSize
        (front ++ (chunk.remainder len ++ back)) (chunk.taken len :: live) := by
  rw [Chunk.taken, if_pos hwhole, Chunk.remainder, if_pos hwhole, List.nil_append]
  exact ⟨Heap.nextSlot_eq hrepresents.layout (by simp), hrepresents.disconnect⟩

theorem Represents.handOut_part
    (hrepresents : Represents memory heap maxSize (front ++ chunk :: back) live)
    (hlen : sizeofFreelist - sizeofSize ≤ len)
    (hroom : len + sizeofFreelist ≤ chunk.size) :
    nextSlot (u32 (chunk.start + (chunk.size - len))) = (chunk.taken len).data ∧
      Represents (setSize (setSize memory (u32 (chunk.start + (chunk.size - len))) len)
          chunk.start (sub32 (chunk.size - len) sizeofSize)) heap maxSize
        (front ++ (chunk.remainder len ++ back)) (chunk.taken len :: live) := by
  have hpart : ¬ chunk.size < len + sizeofFreelist := not_lt.mpr hroom
  have hsplit := hrepresents.split hlen hroom
  have hupper : u32 (chunk.start + (chunk.size - len)) = (chunk.upperPart len).start := by
    have hlt : (chunk.upperPart len).finish < 2 ^ 32 := hsplit.layout.finish_lt (by simp)
    simp only [finish, upperPart] at hlt ⊢
    exact u32_of_lt (by omega)
  have hlower : sub32 (chunk.size - len) sizeofSize = (chunk.lowerPart len).size := by
    have hlt : chunk.finish < 2 ^ 32 := hrepresents.layout.finish_lt (by simp)
    simp only [finish, sizeofFreelist, sizeofSize] at hlt hroom ⊢
    exact sub32_of_le (by omega) (by omega)
  rw [Chunk.taken, if_neg hpart, Chunk.remainder, if_neg hpart, hupper, hlower]
  exact ⟨Heap.nextSlot_eq hsplit.layout (by simp), hsplit⟩

/-- What the walk found is handed out. -/
theorem Represents.handOut {found : Found}
    (hrepresents : Represents memory heap maxSize free live)
    (hlen : sizeofFreelist - sizeofSize ≤ len) (hfound : FoundIn len free found) :
    (Heap.handOut memory heap len found = .error (.panic "Heap is full") ∧
        ∀ other ∈ free, other.size < len) ∨
      ∃ front chunk back memory', free = front ++ chunk :: back ∧
        Fits len front chunk back ∧ len ≤ chunk.size ∧
        Heap.handOut memory heap len found = .ok ((chunk.taken len).data, memory') ∧
        Represents memory' heap maxSize (front ++ (chunk.remainder len ++ back))
          (chunk.taken len :: live) := by
  cases hfound with
  | @exact front back chunk hfree hsize hfront =>
      subst hfree
      have hwhole : chunk.size < len + sizeofFreelist := by
        rw [hsize]
        exact Nat.lt_add_of_pos_right (by decide)
      obtain ⟨hdata, hresult⟩ := hrepresents.handOut_whole hwhole
      right
      refine ⟨front, chunk, back, _, rfl, Or.inl ⟨hsize, hfront⟩, hsize.ge, ?_, hresult⟩
      rw [Heap.handOut, hdata]
  | @closest s sfp1 sfp2 hclosest =>
      rcases hclosest.cases with ⟨rfl, hsmall⟩ |
        ⟨front, chunk, back, rfl, hfits, hlarge, rfl, rfl, rfl⟩
      · exact Or.inl ⟨by rw [Heap.handOut, if_pos rfl], hsmall⟩
      have hlt : chunk.finish < 2 ^ 32 := hrepresents.layout.finish_lt (by simp)
      have hsub : sub32 chunk.size len = chunk.size - len := by
        simp only [finish] at hlt
        exact sub32_of_le (by omega) hlarge.le
      have hsize : chunk.size ≠ 0 := by omega
      right
      by_cases hwhole : chunk.size < len + sizeofFreelist
      · obtain ⟨hdata, hresult⟩ := hrepresents.handOut_whole hwhole
        refine ⟨front, chunk, back, _, rfl, hfits, hlarge.le, ?_, hresult⟩
        rw [Heap.handOut, if_neg hsize, if_pos (by omega), hdata]
      · obtain ⟨hdata, hresult⟩ := hrepresents.handOut_part hlen (not_lt.mp hwhole)
        refine ⟨front, chunk, back, _, rfl, hfits, hlarge.le, ?_, hresult⟩
        rw [Heap.handOut, if_neg hsize, if_neg (by omega), hsub]
        simp only [hdata]

/-- The allocation takes the best fit, and panics if no chunk fits. -/
theorem Represents.heapAlloc (hrepresents : Represents memory heap maxSize free live)
    (len : ℕ) :
    (Heap.heapAlloc memory heap len = .error (.panic "Heap is full") ∧
        ∀ other ∈ free, other.size < chunkLen len) ∨
      ∃ front chunk back memory', free = front ++ chunk :: back ∧
        Fits (chunkLen len) front chunk back ∧ chunkLen len ≤ chunk.size ∧
        Heap.heapAlloc memory heap len =
          .ok ((chunk.taken (chunkLen len)).data, memory') ∧
        Represents memory' heap maxSize (front ++ (chunk.remainder (chunkLen len) ++ back))
          (chunk.taken (chunkLen len) :: live) := by
  have hcounted := hrepresents.increment (heap + 8) le_rfl
    (by simp only [sizeofHeap]; omega)
  have hlen : (if len < sizeofFreelist - sizeofSize then sizeofFreelist - sizeofSize
      else len) = chunkLen len := by
    rw [chunkLen, max_def_lt]
  obtain ⟨found, hloop, hfound⟩ := searchLoop_eq_ok [] hcounted.chain
    (fun other hmem => hcounted.sizes other (List.mem_append_left live hmem))
    (show Closest (chunkLen len) [] 0 0 0 from .none (by simp)) hcounted.length_lt
  have hnull : lastStart [] = 0 := rfl
  rw [hnull] at hloop
  simp only [Heap.heapAlloc, hlen, hloop, ok_bind]
  exact hcounted.handOut (le_max_right _ _) hfound

/-- A chunk put back between two parts of the list, joined with its neighbours. -/
def release (front : List Chunk) (chunk : Chunk) (back : List Chunk) : List Chunk :=
  match front.reverse with
  | [] => absorb chunk back
  | lower :: earlier => earlier.reverse ++ absorb lower (absorb chunk back)

theorem release_concat :
    release (front ++ [lower]) chunk back = front ++ absorb lower (absorb chunk back) := by
  simp [release]

/-- A live chunk whose link leads to `back`, its place in the list. -/
theorem Represents.give {earlier later : List Chunk}
    (hrepresents : Represents memory heap maxSize (front ++ back)
      (earlier ++ chunk :: later))
    (hlink : chunkNext memory chunk.start = firstStart back)
    (hfront : ∀ other ∈ front, other.start < chunk.start)
    (hback : ∀ other ∈ back, chunk.start < other.start) :
    Pending memory heap maxSize front (firstStart back) (chunk :: back)
      (earlier ++ later) := by
  obtain ⟨hlayout, hsizes, hpath, htail⟩ := hrepresents.pending
  refine ⟨hlayout.give hfront hback, fun other hmem => hsizes other ?_, hpath, rfl, ?_⟩
  · have hperm : (front ++ chunk :: back ++ (earlier ++ later)).Perm
        (front ++ back ++ (earlier ++ chunk :: later)) := by
      apply (perm_front front back _ chunk).trans
      exact (List.perm_middle.symm.trans
        (List.Perm.append_left _ List.perm_middle.symm))
    exact hperm.mem_iff.mp hmem
  · rw [hlink]
    exact htail

/-- The link word of a live chunk is the caller's. -/
theorem Represents.setNext_live (hrepresents : Represents memory heap maxSize free live)
    (hmem : chunk ∈ live) (value : ℕ) :
    Represents (Heap.setNext memory chunk.start value) heap maxSize free live := by
  have hchunk := List.mem_append_right free hmem
  have hroom := (hrepresents.layout.inside chunk hchunk).room
  refine hrepresents.congr fun position hposition => ?_
  rw [Heap.setNext, Heap.nextSlot_eq hrepresents.layout hchunk]
  refine store32_of_notMem ?_
  have houtside := hposition.notLive hrepresents.layout hmem
  simp only [data, finish, sizeofSize, sizeofFreelist] at houtside hroom ⊢
  omega

/-- Linking a returned chunk to the chunk behind it. -/
theorem Represents.connect_upper {earlier later : List Chunk}
    (hrepresents : Represents memory heap maxSize (front ++ upper :: back)
      (earlier ++ chunk :: later))
    (hfront : ∀ other ∈ front, other.start < chunk.start)
    (hback : ∀ other ∈ upper :: back, chunk.start < other.start) :
    Pending (connect memory chunk.start upper.start) heap maxSize front upper.start
      (absorb chunk (upper :: back)) (earlier ++ later) := by
  have hchunk : chunk ∈ earlier ++ chunk :: later := by simp
  have hupper : upper.start < 2 ^ 32 := firstStart_lt hrepresents.layout
  exact ((hrepresents.setNext_live hchunk upper.start).give
    (chunkNext_setNext_self hupper) hfront hback).absorb

/-- Linking the chunk in front to the returned one. -/
theorem Pending.connect_lower (hne : tail ≠ [])
    (hpending : Pending memory heap maxSize (front ++ [lower]) target tail live) :
    Represents (connect memory lower.start (firstStart tail)) heap maxSize
      (front ++ Heap.absorb lower tail) live := by
  cases tail with
  | nil => exact absurd rfl hne
  | cons upper back =>
      have habsorbed := hpending.setNext.pending.absorb
      have hstart : firstStart (lower :: upper :: back) =
          firstStart (Heap.absorb lower (upper :: back)) := by
        rw [firstStart_absorb, firstStart]
      rw [hstart] at habsorbed
      exact habsorbed.represents

theorem absorb_ne_nil (chunk : Chunk) (back : List Chunk) : absorb chunk back ≠ [] := by
  cases back with
  | nil => simp [absorb]
  | cons upper back =>
      simp only [absorb]
      split <;> simp

/-- The chunk is put between the two parts of a list that is not empty. -/
theorem Represents.relink {earlier later : List Chunk} (hne : front ++ back ≠ [])
    (hrepresents : Represents memory heap maxSize (front ++ back)
      (earlier ++ chunk :: later))
    (hlink : chunkNext memory chunk.start = 0)
    (hfront : ∀ other ∈ front, other.start < chunk.start)
    (hback : ∀ other ∈ back, chunk.start < other.start) :
    Represents (Heap.relink memory heap chunk.start (firstStart back) (lastStart front))
      heap maxSize (release front chunk back) (earlier ++ later) := by
  cases back with
  | nil =>
      -- the new topmost chunk
      rw [List.append_nil] at hne
      obtain ⟨before, lower, rfl⟩ := (List.eq_nil_or_concat front).resolve_left hne
      rw [List.concat_eq_append] at hrepresents hfront ⊢
      have hlinked := (hrepresents.give hlink hfront hback).connect_lower
        (List.cons_ne_nil _ _)
      have hlast : firstStart [chunk] = chunk.start := rfl
      have hnone : ¬ firstStart [] ≠ 0 := not_not.mpr rfl
      rw [hlast] at hlinked
      rw [release_concat, lastStart_concat, Heap.relink, if_neg hnone]
      exact hlinked
  | cons upper back =>
      have hupper : firstStart (upper :: back) ≠ 0 :=
        hrepresents.layout.start_pos (by simp)
      have hpending := hrepresents.connect_upper hfront hback
      rw [Heap.relink, if_pos hupper]
      rcases List.eq_nil_or_concat front with rfl | ⟨before, lower, rfl⟩
      · have hlinked := hpending.setFreelist
        rw [firstStart_absorb] at hlinked
        exact hlinked
      · rw [List.concat_eq_append] at hpending hrepresents ⊢
        have hlower : lower.start ≠ 0 := hrepresents.layout.start_pos (by simp)
        have hlinked := hpending.connect_lower (absorb_ne_nil _ _)
        rw [firstStart_absorb] at hlinked
        rw [release_concat, lastStart_concat, if_neg hlower]
        exact hlinked

/-- The first free chunk not in front of a live one is behind it, and so are
the others. -/
theorem Layout.behind (hlayout : Layout heap maxSize (front ++ back) live)
    (hmem : chunk ∈ live) (hhead : ∀ other ∈ back.head?, chunk.start ≤ other.start) :
    ∀ other ∈ back, chunk.start < other.start := by
  cases back with
  | nil => simp
  | cons upper back =>
      have hle : chunk.start ≤ upper.start := hhead upper rfl
      have hapart := hlayout.apart_of_free_live
        (List.mem_append_right front List.mem_cons_self) hmem
      have hlt : chunk.start < upper.start := by
        simp only [Apart, finish, sizeofSize] at hapart
        omega
      obtain ⟨_, _, hlater⟩ := ascending_middle.mp hlayout.ascending
      rintro other (_ | ⟨_, hother⟩)
      · exact hlt
      · have hbefore := hlater other hother
        simp only [Before, finish] at hbefore
        omega

theorem Layout.sub32_data (hlayout : Layout heap maxSize free live)
    (hmem : chunk ∈ free ++ live) : sub32 chunk.data sizeofSize = chunk.start := by
  have hlt := hlayout.finish_lt hmem
  simp only [finish] at hlt
  rw [data, sub32_of_le (by omega) (Nat.le_add_left _ _), Nat.add_sub_cancel]

/-- The memory in which the deallocation has counted itself and has cleared the
link of the chunk. -/
def cleared (memory : Memory) (heap : ℕ) (chunk : Chunk) : Memory :=
  Heap.setNext (Heap.increment memory (heap + 12)) chunk.start 0

/-- On a list that is not empty the deallocation finds the place of the chunk
and links it there. -/
theorem Represents.heapFree_eq_relink {earlier later : List Chunk} (hne : free ≠ [])
    (hrepresents : Represents memory heap maxSize free (earlier ++ chunk :: later)) :
    Represents (cleared memory heap chunk) heap maxSize free (earlier ++ chunk :: later) ∧
      ∃ front back, free = front ++ back ∧ (∀ other ∈ front, other.start < chunk.start) ∧
        (∀ other ∈ back, chunk.start < other.start) ∧
        Heap.heapFree memory heap chunk.data = .ok (Heap.relink (cleared memory heap chunk) heap
          chunk.start (firstStart back) (lastStart front)) := by
  have hlive : chunk ∈ earlier ++ chunk :: later := by simp
  have hdata : chunk.data ≠ 0 := by simp [data, sizeofSize]
  have hstart := hrepresents.layout.sub32_data (List.mem_append_right free hlive)
  have hcounted := (hrepresents.increment (heap + 12) (by omega)
    (by simp only [sizeofHeap]; omega)).setNext_live hlive 0
  have hhead : ¬ heapFreelist (Heap.setNext (Heap.increment memory (heap + 12))
      chunk.start 0) heap = 0 := by
    rw [hcounted.chain.start_eq_stop_iff]
    simpa using hne
  obtain ⟨front, back, rfl, hfront, hfirst, hloop⟩ := insertLoop_eq_ok chunk.start []
    hcounted.chain hcounted.length_lt
  have hback := hcounted.layout.behind hlive hfirst
  refine ⟨hcounted, front, back, rfl, hfront, hback, ?_⟩
  have hnull : lastStart [] = 0 := rfl
  rw [hnull, List.nil_append] at hloop
  simp only [Heap.heapFree, if_neg hdata, hstart, if_neg hhead, hloop, ok_bind, cleared]

/-- The deallocation, on a list that is not empty, puts the chunk back. -/
theorem Represents.heapFree {earlier later : List Chunk} (hne : free ≠ [])
    (hrepresents : Represents memory heap maxSize free (earlier ++ chunk :: later)) :
    ∃ front back memory', free = front ++ back ∧
      (∀ other ∈ front, other.start < chunk.start) ∧
      (∀ other ∈ back, chunk.start < other.start) ∧
      Heap.heapFree memory heap chunk.data = .ok memory' ∧
      Represents memory' heap maxSize (release front chunk back) (earlier ++ later) := by
  have hlink : chunkNext (cleared memory heap chunk) chunk.start = 0 :=
    chunkNext_setNext_self (Nat.two_pow_pos 32)
  obtain ⟨hcleared, front, back, rfl, hfront, hback, hcall⟩ := hrepresents.heapFree_eq_relink hne
  exact ⟨front, back, _, rfl, hfront, hback, hcall,
    hcleared.relink hne hlink hfront hback⟩

theorem insertLoop_self {fpnew fuel fp2 : ℕ} (hne : fpnew ≠ 0) (hfuel : 0 < fuel) :
    insertLoop memory fpnew fuel fpnew fp2 = .ok (fpnew, fp2) := by
  obtain ⟨fuel, rfl⟩ : ∃ less, fuel = less + 1 := ⟨fuel - 1, by omega⟩
  rw [insertLoop, if_neg hne, if_neg (lt_irrefl _)]

/-- On an empty list the chunk becomes its own successor: the walk meets the
chunk that the trivial case has just linked. -/
theorem Represents.heapFree_exhausted
    (hrepresents : Represents memory heap maxSize [] live) (hmem : chunk ∈ live) :
    ∃ memory', Heap.heapFree memory heap chunk.data = .ok memory' ∧
      heapFreelist memory' heap = chunk.start ∧
      chunkNext memory' chunk.start = chunk.start := by
  have hdata : chunk.data ≠ 0 := by simp [data, sizeofSize]
  have hstart := hrepresents.layout.sub32_data (List.mem_append_right [] hmem)
  have hne := hrepresents.layout.start_pos (List.mem_append_right [] hmem)
  have hinside := hrepresents.layout.inside chunk (List.mem_append_right [] hmem)
  have hbound := hrepresents.layout.bound
  have hfinish : chunk.start + sizeofSize + chunk.size < 2 ^ 32 :=
    hrepresents.layout.finish_lt (List.mem_append_right [] hmem)
  have hlt : chunk.start < 2 ^ 32 := by omega
  have hcounted := (hrepresents.increment (heap + 12) (by omega)
    (by simp only [sizeofHeap]; omega)).setNext_live hmem 0
  generalize hmemory : Heap.setNext (Heap.increment memory (heap + 12)) chunk.start 0 =
    counted at hcounted
  have hhead : heapFreelist counted heap = 0 := chain_nil.mp hcounted.chain
  have hlinked : heapFreelist (setFreelist counted heap chunk.start) heap = chunk.start :=
    heapFreelist_setFreelist hlt
  have hsize : chunkSize (Heap.setNext (setFreelist counted heap chunk.start)
      chunk.start chunk.start) chunk.start = chunk.size := by
    rw [chunkSize_setNext hbound hinside (fun hself => absurd rfl hself),
      chunkSize_setFreelist hinside]
    exact hcounted.sizes chunk (List.mem_append_right [] hmem)
  have hapart : adjacent (Heap.setNext (setFreelist counted heap chunk.start)
      chunk.start chunk.start) chunk.start chunk.start = false := by
    rw [adjacent, hsize, hinside.nextSlot_eq hbound, data, u32_of_lt hfinish]
    exact decide_eq_false (by simp only [sizeofSize]; omega)
  refine ⟨setFreelist (Heap.setNext (setFreelist counted heap chunk.start)
      chunk.start chunk.start) heap chunk.start, ?_, ?_, ?_⟩
  · have hloop : insertLoop (setFreelist counted heap chunk.start) chunk.start (2 ^ 32)
        chunk.start 0 = .ok (chunk.start, 0) := insertLoop_self hne (by norm_num)
    have hrelink : Heap.relink (setFreelist counted heap chunk.start) heap chunk.start
        chunk.start 0 = setFreelist (Heap.setNext (setFreelist counted heap chunk.start)
          chunk.start chunk.start) heap chunk.start := by
      rw [Heap.relink, if_pos hne, connect]
      simp only [hapart, Bool.false_eq_true, if_false, if_true]
    simp only [Heap.heapFree, if_neg hdata, hstart, hmemory, hhead, if_true, hlinked,
      hloop, ok_bind, hrelink]
  · exact heapFreelist_setFreelist hlt
  · rw [chunkNext_setFreelist hbound hinside]
    exact chunkNext_setNext_self hlt

end GeexOS.Heap
