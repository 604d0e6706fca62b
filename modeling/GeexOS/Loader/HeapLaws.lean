import GeexOS.Loader.HeapRuns

/-!
# Laws of the heap's steps

An allocation cuts the best fit and a deallocation closes the gap it is put
into.  Both keep the room that free and live chunks take together, keep free
chunks from touching one another, and write only to the heap's record and to
chunks they name.
-/

namespace GeexOS.Heap

open GeexOS.Words
open GeexOS.Halting
open GeexOS.ByteMemory
open GeexOS.Linked
open Chunk

variable {memory memory' memory'' : Memory} {heap maxSize len p start next position : ℕ}
variable {free live front back touched touched' : List Chunk} {chunk lower upper : Chunk}

/-- No free chunk starts where another one ends. -/
def NonAdjacent (free : List Chunk) : Prop :=
  free.Pairwise fun lower upper => lower.finish ≠ upper.start

/-- The room of chunks with their size words. -/
def totalSize (chunks : List Chunk) : ℕ :=
  (chunks.map fun chunk => chunk.size + sizeofSize).sum

/-- The position belongs to one of the chunks. -/
def Covered (chunks : List Chunk) (position : ℕ) : Prop :=
  ∃ chunk ∈ chunks, chunk.start ≤ position ∧ position < chunk.finish

/-- Only the heap's record and the chunks are written to. -/
def SameOutside (heap : ℕ) (touched : List Chunk) (memory memory' : Memory) : Prop :=
  ∀ position, (position < heap ∨ heap + sizeofHeap ≤ position) → ¬ Covered touched position →
    memory' position = memory position

/-! ## Room -/

@[simp]
theorem totalSize_nil : totalSize [] = 0 := rfl

@[simp]
theorem totalSize_cons :
    totalSize (chunk :: back) = chunk.size + sizeofSize + totalSize back := by
  rw [totalSize, List.map_cons, List.sum_cons]
  rfl

@[simp]
theorem totalSize_append : totalSize (front ++ back) = totalSize front + totalSize back := by
  simp [totalSize]

/-- What is handed out and what is kept is the chunk. -/
theorem totalSize_taken :
    totalSize (chunk.remainder len) + totalSize [chunk.taken len] = totalSize [chunk] := by
  by_cases hwhole : chunk.size < len + sizeofFreelist
  · rw [Chunk.remainder, Chunk.taken, if_pos hwhole, if_pos hwhole, totalSize_nil, Nat.zero_add]
  · rw [Chunk.remainder, Chunk.taken, if_neg hwhole, if_neg hwhole]
    simp only [totalSize_cons, totalSize_nil, lowerPart, upperPart, sizeofFreelist,
      sizeofSize] at hwhole ⊢
    omega

theorem totalSize_absorb : totalSize (absorb chunk back) = totalSize (chunk :: back) := by
  cases back with
  | nil => rfl
  | cons upper back =>
      rw [absorb]
      split
      · simp only [totalSize_cons, join]
        omega
      · rfl

theorem totalSize_release :
    totalSize (release front chunk back) = totalSize (front ++ chunk :: back) := by
  rcases List.eq_nil_or_concat front with rfl | ⟨before, lower, rfl⟩
  · exact totalSize_absorb
  · rw [List.concat_eq_append, release_concat, totalSize_append, totalSize_absorb,
      totalSize_cons, totalSize_absorb]
    simp only [totalSize_append, totalSize_cons, totalSize_nil]
    omega

/-! ## Bytes -/

theorem covered_cons :
    Covered (chunk :: back) position ↔
      (chunk.start ≤ position ∧ position < chunk.finish) ∨ Covered back position := by
  simp [Covered]

theorem covered_append :
    Covered (front ++ back) position ↔ Covered front position ∨ Covered back position := by
  simp only [Covered, List.mem_append, or_and_right, exists_or]

theorem covered_absorb :
    Covered (absorb chunk back) position ↔ Covered (chunk :: back) position := by
  cases back with
  | nil => rfl
  | cons upper back =>
      rw [absorb]
      split
      · next hmeet =>
          rw [covered_cons, covered_cons, covered_cons, ← or_assoc, finish_join hmeet]
          refine or_congr_left ?_
          simp only [finish, join] at hmeet ⊢
          omega
      · rfl

theorem covered_release :
    Covered (release front chunk back) position ↔ Covered (front ++ chunk :: back) position := by
  rcases List.eq_nil_or_concat front with rfl | ⟨before, lower, rfl⟩
  · exact covered_absorb
  · rw [List.concat_eq_append, release_concat, covered_append, covered_absorb, covered_cons,
      covered_absorb, ← covered_cons, ← covered_append, List.append_assoc, List.singleton_append]

/-! ## Neighbours -/

/-- The free chunks are in order and apart, with a gap behind each of them. -/
def Gapped (free : List Chunk) : Prop :=
  free.IsChain fun lower upper => lower.finish < upper.start

theorem Gapped.pairwise (hgapped : Gapped free) :
    free.Pairwise fun lower upper => lower.finish < upper.start := by
  have htrans : IsTrans Chunk fun lower upper => lower.finish < upper.start :=
    ⟨fun first second third hfirst hsecond => by
      simp only [finish] at hfirst hsecond ⊢
      omega⟩
  exact List.isChain_iff_pairwise.mp hgapped

theorem gapped_iff (hascending : free.Pairwise Before) : Gapped free ↔ NonAdjacent free := by
  constructor
  · exact fun hgapped => hgapped.pairwise.imp fun hlt => hlt.ne
  · intro hapart
    exact List.Pairwise.isChain ((hascending.and hapart).imp fun hboth =>
      lt_of_le_of_ne hboth.1 hboth.2)

/-- The new chunk lies in front of the others, and joins the first one if it
touches it. -/
theorem Gapped.absorb (hback : Gapped back) (hbefore : ∀ other ∈ back.head?, chunk.Before other) :
    Gapped (absorb chunk back) := by
  cases back with
  | nil => exact List.isChain_singleton _
  | cons upper back =>
      have hle : chunk.finish ≤ upper.start := hbefore upper rfl
      rw [Heap.absorb]
      split
      · next hmeet =>
          cases back with
          | nil => exact List.isChain_singleton _
          | cons next back =>
              obtain ⟨hnext, hrest⟩ := List.isChain_cons_cons.mp hback
              exact List.isChain_cons_cons.mpr ⟨(finish_join hmeet).trans_lt hnext, hrest⟩
      · next hapart =>
          exact List.isChain_cons_cons.mpr ⟨lt_of_le_of_ne hle hapart, hback⟩

theorem head_absorb : ∃ merged rest, absorb chunk back = merged :: rest ∧
    merged.start = chunk.start := by
  cases back with
  | nil => exact ⟨chunk, [], rfl, rfl⟩
  | cons upper back =>
      rw [absorb]
      split
      · exact ⟨_, _, rfl, rfl⟩
      · exact ⟨_, _, rfl, rfl⟩

/-- The last chunk of the front part is replaced by one that starts at the same
place. -/
theorem Gapped.replace {merged : Chunk} {rest : List Chunk}
    (hfront : Gapped (front ++ [lower])) (hmerged : merged.start = lower.start)
    (hrest : Gapped (merged :: rest)) : Gapped (front ++ merged :: rest) := by
  rw [Gapped, List.isChain_append] at hfront ⊢
  obtain ⟨hbefore, -, hlast⟩ := hfront
  refine ⟨hbefore, hrest, fun other hother first hfirst => ?_⟩
  obtain rfl : merged = first := by simpa using hfirst
  rw [hmerged]
  exact hlast other hother lower rfl

theorem Gapped.release (hfront : Gapped front) (hback : Gapped back)
    (hlower : ∀ other ∈ front, other.Before chunk) (hupper : ∀ other ∈ back, chunk.Before other) :
    Gapped (release front chunk back) := by
  have habsorb : Gapped (Heap.absorb chunk back) :=
    hback.absorb fun other hother => hupper other (List.mem_of_mem_head? hother)
  rcases List.eq_nil_or_concat front with rfl | ⟨before, lower, rfl⟩
  · exact habsorb
  · rw [List.concat_eq_append] at hfront hlower ⊢
    rw [release_concat]
    obtain ⟨first, rest, hfirst, hstart⟩ := @head_absorb back chunk
    have hmerged : Gapped (Heap.absorb lower (Heap.absorb chunk back)) := by
      refine habsorb.absorb fun other hother => ?_
      rw [hfirst] at hother
      obtain rfl : first = other := by simpa using hother
      have hle := hlower lower (by simp)
      rw [Before] at hle ⊢
      rwa [hstart]
    obtain ⟨merged, rest', hcons, hsame⟩ := @head_absorb (Heap.absorb chunk back) lower
    rw [hcons] at hmerged ⊢
    exact hfront.replace hsame hmerged

/-- Cutting a chunk widens the gap behind it. -/
theorem Gapped.remainder (hfree : Gapped (front ++ chunk :: back)) :
    Gapped (front ++ (chunk.remainder len ++ back)) := by
  by_cases hwhole : chunk.size < len + sizeofFreelist
  · rw [Chunk.remainder, if_pos hwhole, List.nil_append]
    exact List.Pairwise.isChain (hfree.pairwise.sublist
      (List.Sublist.append_left (List.sublist_cons_self _ _) _))
  · rw [Chunk.remainder, if_neg hwhole, List.singleton_append]
    have hshorter : (chunk.lowerPart len).finish ≤ chunk.finish := by
      simp only [finish, lowerPart]
      omega
    obtain ⟨hfront, hchunk, hcross⟩ := List.pairwise_append.mp hfree.pairwise
    obtain ⟨hbehind, hback⟩ := List.pairwise_cons.mp hchunk
    refine List.Pairwise.isChain (List.pairwise_append.mpr ⟨hfront,
      List.pairwise_cons.mpr ⟨fun other hmem => hshorter.trans_lt (hbehind other hmem), hback⟩,
      fun other hother => ?_⟩)
    exact List.forall_mem_cons.mpr ⟨hcross other hother chunk List.mem_cons_self,
      fun behind hbehind => hcross other hother behind (List.mem_cons_of_mem _ hbehind)⟩

/-! ## Chunks that stay -/

theorem mem_absorb {other : Chunk} (hmem : other ∈ back) (happart : chunk.finish ≠ other.start) :
    other ∈ absorb chunk back := by
  cases back with
  | nil => exact absurd hmem List.not_mem_nil
  | cons upper back =>
      rw [absorb]
      split
      · next hmeet =>
          rcases List.mem_cons.mp hmem with rfl | hback
          · exact absurd hmeet happart
          · exact List.mem_cons_of_mem _ hback
      · exact List.mem_cons_of_mem _ hmem

theorem mem_absorb_self (hapart : ∀ other ∈ back.head?, chunk.finish ≠ other.start) :
    chunk ∈ absorb chunk back := by
  cases back with
  | nil => exact List.mem_singleton_self _
  | cons upper back =>
      rw [absorb, if_neg (hapart upper rfl)]
      exact List.mem_cons_self

/-- Only the neighbours that touch the chunk are changed. -/
theorem mem_release {other : Chunk} (hlower : ∀ other ∈ front, other.Before chunk)
    (hupper : ∀ other ∈ back, chunk.start < other.start) (hmem : other ∈ front ++ back)
    (hbelow : other.finish ≠ chunk.start) (habove : chunk.finish ≠ other.start) :
    other ∈ release front chunk back := by
  rcases List.eq_nil_or_concat front with rfl | ⟨before, lower, rfl⟩
  · exact mem_absorb hmem habove
  · rw [List.concat_eq_append] at hlower hmem ⊢
    rw [release_concat]
    obtain ⟨first, rest, hfirst, hstart⟩ := @head_absorb back chunk
    rcases List.mem_append.mp hmem with hfront | hback
    · rcases List.mem_append.mp hfront with hbefore | hlast
      · exact List.mem_append_left _ hbefore
      · obtain rfl := List.mem_singleton.mp hlast
        refine List.mem_append_right _ (mem_absorb_self fun next hnext => ?_)
        rw [hfirst] at hnext
        obtain rfl : first = next := by simpa using hnext
        rwa [hstart]
    · refine List.mem_append_right _ (mem_absorb (mem_absorb hback habove) ?_)
      have hle : lower.finish ≤ chunk.start := hlower lower (by simp)
      exact (hle.trans_lt (hupper other hback)).ne

/-! ## What is written to -/

theorem SameOutside.refl : SameOutside heap touched memory memory :=
  fun _ _ _ => rfl

theorem SameOutside.trans (hfirst : SameOutside heap touched memory memory')
    (hsecond : SameOutside heap touched memory' memory'') :
    SameOutside heap touched memory memory'' :=
  fun position hrecord houtside =>
    (hsecond position hrecord houtside).trans (hfirst position hrecord houtside)

/-- A word within a chunk is written. -/
theorem sameOutside_chunk {address value : ℕ} (hmem : chunk ∈ touched)
    (hlow : chunk.start ≤ address) (hhigh : address + 4 ≤ chunk.finish) :
    SameOutside heap touched memory (store32 memory address value) := by
  intro position _ houtside
  refine store32_of_notMem ?_
  by_contra hinside
  exact houtside ⟨chunk, hmem, by omega, by omega⟩

/-- A word of the record is written. -/
theorem sameOutside_record {address value : ℕ} (hlow : heap ≤ address)
    (hhigh : address + 4 ≤ heap + sizeofHeap) :
    SameOutside heap touched memory (store32 memory address value) :=
  fun _ hrecord _ => store32_of_notMem (by omega)

theorem sameOutside_setFreelist {value : ℕ} :
    SameOutside heap touched memory (setFreelist memory heap value) :=
  sameOutside_record (Nat.le_add_right _ _) (by simp only [freelistSlot, sizeofHeap]; omega)

section Chunks

variable (hbound : heap + maxSize < 2 ^ 32) (hinside : ∀ chunk ∈ touched, Inside heap maxSize chunk)

theorem sameOutside_setSize {value : ℕ} (hmem : chunk ∈ touched) :
    SameOutside heap touched memory (setSize memory chunk.start value) :=
  sameOutside_chunk hmem le_rfl (by simp only [finish, sizeofSize]; omega)

include hbound hinside

theorem sameOutside_setNext {value : ℕ} (hmem : chunk ∈ touched) :
    SameOutside heap touched memory (setNext memory chunk.start value) := by
  obtain ⟨-, hhigh, hroom⟩ := hinside chunk hmem
  simp only [finish, sizeofFreelist, sizeofSize] at hhigh hroom
  have hslot : nextSlot chunk.start = chunk.start + sizeofSize :=
    u32_of_lt (by simp only [sizeofSize]; omega)
  rw [setNext, hslot]
  exact sameOutside_chunk hmem (Nat.le_add_right _ _)
    (by simp only [finish, sizeofSize]; omega)

theorem sameOutside_connect {value : ℕ} (hmem : chunk ∈ touched) :
    SameOutside heap touched memory (connect memory chunk.start value) := by
  have hlink := @sameOutside_setNext memory heap maxSize touched chunk hbound hinside value hmem
  rw [connect]
  split
  · exact hlink.trans ((sameOutside_setSize hmem).trans
      (sameOutside_setNext hbound hinside hmem))
  · exact hlink

theorem sameOutside_disconnect {value : ℕ} (hfront : ∀ chunk ∈ front, chunk ∈ touched) :
    SameOutside heap touched memory (disconnect memory heap value (lastStart front)) := by
  rw [disconnect]
  split
  · next hne =>
      rcases List.eq_nil_or_concat front with rfl | ⟨before, lower, rfl⟩
      · exact absurd rfl hne
      · rw [List.concat_eq_append, lastStart_concat]
        exact sameOutside_setNext hbound hinside (hfront lower (by simp))
  · exact sameOutside_setFreelist

theorem sameOutside_relink (hfront : ∀ chunk ∈ front, chunk ∈ touched) (hmem : chunk ∈ touched)
    (hne : start = 0 → front ≠ []) :
    SameOutside heap touched memory (relink memory heap chunk.start start (lastStart front)) := by
  have hlast : front ≠ [] → ∀ memory, SameOutside heap touched memory
      (connect memory (lastStart front) chunk.start) := by
    intro hfilled memory
    obtain ⟨before, lower, rfl⟩ := (List.eq_nil_or_concat front).resolve_left hfilled
    rw [List.concat_eq_append, lastStart_concat]
    exact sameOutside_connect hbound hinside (hfront lower (by simp))
  rw [relink]
  split
  · have hupper : SameOutside heap touched memory (connect memory chunk.start start) :=
      sameOutside_connect hbound hinside hmem
    refine hupper.trans ?_
    split
    · exact sameOutside_setFreelist
    · next hnull => exact hlast (fun hnil => hnull (by rw [hnil]; rfl)) _
  · next hnull => exact hlast (hne (not_not.mp hnull)) _

end Chunks

theorem sameOutside_handOut {found : Found}
    (hrepresents : Represents memory heap maxSize free live)
    (hfound : FoundIn len free found)
    (hcall : handOut memory heap len found = .ok (p, memory')) :
    SameOutside heap free memory memory' := by
  have hbound := hrepresents.layout.bound
  have hinside : ∀ chunk ∈ free, Inside heap maxSize chunk := fun chunk hmem =>
    hrepresents.layout.inside chunk (List.mem_append_left _ hmem)
  have hdisconnect : ∀ {front : List Chunk} {chunk : Chunk} {back : List Chunk},
      free = front ++ chunk :: back →
      SameOutside heap free memory (disconnect memory heap chunk.start (lastStart front)) := by
    rintro front chunk back rfl
    exact sameOutside_disconnect hbound hinside fun other hmem => List.mem_append_left _ hmem
  cases hfound with
  | exact hfree hsize hfront =>
      rw [handOut] at hcall
      cases hcall
      exact hdisconnect hfree
  | closest hclosest =>
      rcases hclosest.cases with ⟨rfl, -⟩ |
        ⟨front, chunk, back, hfree, -, hlarge, rfl, rfl, rfl⟩
      · rw [handOut, if_pos rfl] at hcall
        cases hcall
      · have hmem : chunk ∈ free := by simp [hfree]
        have hhigh := (hinside chunk hmem).high
        simp only [finish] at hhigh
        rw [handOut, if_neg (by omega)] at hcall
        split at hcall
        · cases hcall
          exact hdisconnect hfree
        · cases hcall
          rw [sub32_of_le (by omega) hlarge.le, u32_of_lt (by omega)]
          have hupper : SameOutside heap free memory
              (setSize memory (chunk.start + (chunk.size - len)) len) :=
            sameOutside_chunk hmem (Nat.le_add_right _ _)
              (by simp only [finish, sizeofSize]; omega)
          exact hupper.trans (sameOutside_setSize hmem)

theorem Represents.heapAlloc_sameOutside (hrepresents : Represents memory heap maxSize free live)
    (hcall : Heap.heapAlloc memory heap len = .ok (p, memory')) :
    SameOutside heap free memory memory' := by
  have hcount : SameOutside heap free memory (Heap.increment memory (heap + 8)) :=
    sameOutside_record (Nat.le_add_right _ _) (by simp only [sizeofHeap]; omega)
  have hcounted := hrepresents.increment (heap + 8) le_rfl
    (by simp only [sizeofHeap]; omega)
  obtain ⟨found, hloop, hfound⟩ := searchLoop_eq_ok [] hcounted.chain
    (fun other hmem => hcounted.sizes other (List.mem_append_left live hmem))
    (show Closest (if len < sizeofFreelist - sizeofSize then sizeofFreelist - sizeofSize
      else len) [] 0 0 0 from .none (by simp)) hcounted.length_lt
  have hnull : lastStart [] = 0 := rfl
  rw [hnull] at hloop
  simp only [Heap.heapAlloc, hloop, ok_bind] at hcall
  exact hcount.trans (sameOutside_handOut hcounted hfound hcall)

theorem Represents.heapFree_sameOutside {earlier later : List Chunk} (hne : free ≠ [])
    (hrepresents : Represents memory heap maxSize free (earlier ++ chunk :: later))
    (hcall : Heap.heapFree memory heap chunk.data = .ok memory') :
    SameOutside heap (chunk :: free) memory memory' := by
  have hbound := hrepresents.layout.bound
  have hlive : chunk ∈ earlier ++ chunk :: later := by simp
  have hinside : ∀ other ∈ chunk :: free, Inside heap maxSize other := by
    refine List.forall_mem_cons.mpr ⟨?_, fun other hmem => ?_⟩
    · exact hrepresents.layout.inside chunk (List.mem_append_right _ hlive)
    · exact hrepresents.layout.inside other (List.mem_append_left _ hmem)
  have hcount : SameOutside heap (chunk :: free) memory (Heap.increment memory (heap + 12)) :=
    sameOutside_record (Nat.le_add_right _ _) (by simp only [sizeofHeap]; omega)
  have hlink : SameOutside heap (chunk :: free) (Heap.increment memory (heap + 12))
      (Heap.setNext (Heap.increment memory (heap + 12)) chunk.start 0) :=
    sameOutside_setNext hbound hinside List.mem_cons_self
  obtain ⟨-, front, back, rfl, -, -, hreturn⟩ := hrepresents.heapFree_eq_relink hne
  rw [hreturn] at hcall
  cases hcall
  refine (hcount.trans hlink).trans (sameOutside_relink hbound hinside
    (fun other hmem => List.mem_cons_of_mem _ (List.mem_append_left _ hmem))
    List.mem_cons_self fun hnull hnil => ?_)
  -- the walk ends at null only behind the last chunk
  subst hnil
  cases back with
  | nil => exact hne rfl
  | cons first rest => exact hrepresents.layout.start_pos (by simp) hnull

/-! ## The laws -/

/-- What an allocation that returns `p` has done. -/
structure Allocated (heap maxSize len : ℕ) (memory : Memory) (free live : List Chunk) (p : ℕ)
    (memory' : Memory) (front : List Chunk) (chunk : Chunk) (back : List Chunk) : Prop where
  found : free = front ++ chunk :: back
  fits : Fits len front chunk back
  returned : p = (chunk.taken len).data
  represents : Represents memory' heap maxSize (front ++ (chunk.remainder len ++ back))
    (chunk.taken len :: live)
  nonAdjacent : NonAdjacent (front ++ (chunk.remainder len ++ back))
  total : totalSize (front ++ (chunk.remainder len ++ back)) +
    totalSize (chunk.taken len :: live) = totalSize free + totalSize live
  sameOutside : SameOutside heap free memory memory'

/-- What the deallocation of a live chunk has done. -/
structure Released (heap maxSize : ℕ) (memory : Memory) (free earlier : List Chunk)
    (chunk : Chunk) (later : List Chunk) (memory' : Memory) (free' : List Chunk) : Prop where
  represents : Represents memory' heap maxSize free' (earlier ++ later)
  nonAdjacent : NonAdjacent free'
  covered : ∀ position, Covered free' position ↔ Covered (chunk :: free) position
  unchanged : ∀ other ∈ free, other.finish ≠ chunk.start → chunk.finish ≠ other.start →
    other ∈ free'
  total : totalSize free' + totalSize (earlier ++ later) =
    totalSize free + totalSize (earlier ++ chunk :: later)
  sameOutside : SameOutside heap (chunk :: free) memory memory'

theorem Represents.allocated (hrepresents : Represents memory heap maxSize free live)
    (hapart : NonAdjacent free) {size : ℕ} (hfits : ∃ chunk ∈ free, chunkLen size ≤ chunk.size) :
    ∃ p memory' front chunk back, Heap.heapAlloc memory heap size = .ok (p, memory') ∧
      Allocated heap maxSize (chunkLen size) memory free live p memory' front chunk back := by
  rcases hrepresents.heapAlloc size with ⟨-, hsmall⟩ |
    ⟨front, chunk, back, memory', rfl, hbest, -, hcall, hresult⟩
  · obtain ⟨chunk, hmem, hle⟩ := hfits
    exact absurd (hsmall chunk hmem) (not_lt.mpr hle)
  refine ⟨_, memory', front, chunk, back, hcall, rfl, hbest, rfl, hresult, ?_, ?_,
    hrepresents.heapAlloc_sameOutside hcall⟩
  · exact (gapped_iff hresult.layout.ascending).mp
      ((gapped_iff hrepresents.layout.ascending).mpr hapart).remainder
  · have htaken := @totalSize_taken (chunkLen size) chunk
    simp only [totalSize_append, totalSize_cons, totalSize_nil] at htaken ⊢
    omega

theorem Represents.released {earlier later : List Chunk} (hne : free ≠ [])
    (hrepresents : Represents memory heap maxSize free (earlier ++ chunk :: later))
    (hapart : NonAdjacent free) :
    ∃ memory' free', Heap.heapFree memory heap chunk.data = .ok memory' ∧
      Released heap maxSize memory free earlier chunk later memory' free' := by
  obtain ⟨front, back, memory', rfl, hfront, hback, hcall, hresult⟩ := hrepresents.heapFree hne
  have hlive : chunk ∈ front ++ back ++ (earlier ++ chunk :: later) := by simp
  have hlower : ∀ other ∈ front, other.Before chunk := fun other hmem =>
    hrepresents.layout.before_of_lt hlive
      (hrepresents.layout.apart_of_free_live (List.mem_append_left _ hmem) (by simp))
      (hfront other hmem)
  have hupper : ∀ other ∈ back, chunk.Before other := fun other hmem =>
    hrepresents.layout.before_of_lt (List.mem_append_left _ (List.mem_append_right _ hmem))
      (hrepresents.layout.apart_of_free_live (List.mem_append_right _ hmem) (by simp)).symm
      (hback other hmem)
  have hgapped := (gapped_iff hrepresents.layout.ascending).mpr hapart
  refine ⟨memory', _, hcall, hresult, ?_, fun position => ?_, fun other hmem hbelow habove =>
    mem_release hlower hback hmem hbelow habove, ?_,
    hrepresents.heapFree_sameOutside hne hcall⟩
  · refine (gapped_iff hresult.layout.ascending).mp (Gapped.release ?_ ?_ hlower hupper)
    · exact (List.isChain_append.mp hgapped).1
    · exact (List.isChain_append.mp hgapped).2.1
  · rw [covered_release, covered_append, covered_cons, covered_cons, covered_append]
    exact or_left_comm
  · rw [totalSize_release]
    simp only [totalSize_append, totalSize_cons]
    omega

/-- The laws of both steps, for a free list that is not empty. -/
theorem heapStep_laws (hrepresents : Represents memory heap maxSize free live)
    (hapart : NonAdjacent free) (hne : free ≠ []) :
    (∀ size,
      (heapAlloc memory heap size = .error (.panic "Heap is full") ↔
        ¬ ∃ chunk ∈ free, chunkLen size ≤ chunk.size) ∧
      ((∃ chunk ∈ free, chunkLen size ≤ chunk.size) →
        ∃ p memory' front chunk back, heapAlloc memory heap size = .ok (p, memory') ∧
          Allocated heap maxSize (chunkLen size) memory free live p memory' front chunk back)) ∧
    ∀ earlier chunk later, live = earlier ++ chunk :: later →
      ∃ memory' free', heapFree memory heap chunk.data = .ok memory' ∧
        Released heap maxSize memory free earlier chunk later memory' free' := by
  refine ⟨fun size => ⟨⟨fun hpanic hfits => ?_, fun hsmall => ?_⟩, hrepresents.allocated hapart⟩,
    ?_⟩
  · obtain ⟨p, memory', front, chunk, back, hcall, -⟩ := hrepresents.allocated hapart hfits
    rw [hpanic] at hcall
    cases hcall
  · rcases hrepresents.heapAlloc size with ⟨hpanic, -⟩ |
      ⟨front, chunk, back, memory', rfl, -, hle, -⟩
    · exact hpanic
    · exact absurd ⟨chunk, by simp, hle⟩ hsmall
  · rintro earlier chunk later rfl
    exact hrepresents.released hne hapart

theorem heapStep_laws_onePage : ∃ memory,
    (∀ size,
      (heapAlloc memory 4096 size = .error (.panic "Heap is full") ↔
        ¬ ∃ chunk ∈ [(⟨4112, 2024⟩ : Chunk)], chunkLen size ≤ chunk.size) ∧
      ((∃ chunk ∈ [(⟨4112, 2024⟩ : Chunk)], chunkLen size ≤ chunk.size) →
        ∃ p memory' front chunk back, heapAlloc memory 4096 size = .ok (p, memory') ∧
          Allocated 4096 4096 (chunkLen size) memory [⟨4112, 2024⟩] [⟨6140, 2048⟩] p memory'
            front chunk back)) ∧
    ∀ earlier chunk later, [(⟨6140, 2048⟩ : Chunk)] = earlier ++ chunk :: later →
      ∃ memory' free', heapFree memory 4096 chunk.data = .ok memory' ∧
        Released 4096 4096 memory [⟨4112, 2024⟩] earlier chunk later memory' free' := by
  obtain ⟨state', created, -, hcreated⟩ := heapCreate_onePage
  rcases hcreated.heapAlloc 2048 with ⟨_, hsmall⟩ |
    ⟨front, chunk, back, memory, hfree, _, _, _, hresult⟩
  · exact absurd (hsmall ⟨4112, 4076⟩ List.mem_cons_self) (by decide)
  · obtain ⟨rfl, rfl, rfl⟩ : front = [] ∧ chunk = ⟨4112, 4076⟩ ∧ back = [] := by
      cases front with
      | nil =>
          obtain ⟨rfl, rfl⟩ := List.cons.inj hfree
          exact ⟨rfl, rfl, rfl⟩
      | cons first rest => simp at hfree
    exact ⟨memory, heapStep_laws hresult (List.pairwise_singleton _ _) (List.cons_ne_nil _ _)⟩

end GeexOS.Heap
