import GeexOS.Library.Linked
import GeexOS.Loader.Heap
import Mathlib.Data.List.Pairwise

/-!
# The heap as a set of chunks

Seen from outside a heap is two lists of chunks of its data area: the free ones,
ascending by address, and the live ones.  The lists are changed by handing a
chunk out, cutting one in two, taking one back and joining two neighbours; none
of these lets two chunks overlap.
-/

namespace GeexOS.Heap

open GeexOS.Words
open GeexOS.ByteMemory
open GeexOS.Linked

/-- A size word at `start` and the `size` bytes behind it. -/
structure Chunk where
  start : ℕ
  size : ℕ
  deriving DecidableEq, Repr

namespace Chunk

def data (chunk : Chunk) : ℕ := chunk.start + sizeofSize

def finish (chunk : Chunk) : ℕ := chunk.start + sizeofSize + chunk.size

def Apart (left right : Chunk) : Prop :=
  left.finish ≤ right.start ∨ right.finish ≤ left.start

def Before (left right : Chunk) : Prop := left.finish ≤ right.start

/-- A chunk swallows the one that starts where it ends. -/
def join (lower upper : Chunk) : Chunk :=
  ⟨lower.start, lower.size + sizeofSize + upper.size⟩

/-- What stays of a chunk whose upper `len` bytes are handed out. -/
def lowerPart (chunk : Chunk) (len : ℕ) : Chunk :=
  ⟨chunk.start, chunk.size - len - sizeofSize⟩

def upperPart (chunk : Chunk) (len : ℕ) : Chunk :=
  ⟨chunk.start + (chunk.size - len), len⟩

theorem Apart.symm {left right : Chunk} (hapart : left.Apart right) :
    right.Apart left := Or.symm hapart

instance : Std.Symm Apart := ⟨fun _ _ => Apart.symm⟩

theorem finish_join {lower upper : Chunk} (hmeet : lower.finish = upper.start) :
    (lower.join upper).finish = upper.finish := by
  simp only [finish, join] at hmeet ⊢
  omega

theorem finish_lowerPart {chunk : Chunk} {len : ℕ}
    (hroom : len + sizeofSize ≤ chunk.size) :
    (chunk.lowerPart len).finish = (chunk.upperPart len).start := by
  simp only [finish, lowerPart, upperPart, sizeofSize] at hroom ⊢
  omega

theorem finish_upperPart {chunk : Chunk} {len : ℕ} (hroom : len ≤ chunk.size) :
    (chunk.upperPart len).finish = chunk.finish := by
  simp only [finish, upperPart]
  omega

end Chunk

open Chunk

variable {heap maxSize len : ℕ} {chunk lower upper : Chunk}
variable {free live front back rest chunks : List Chunk}
variable {memory memory' : Memory}

/-! ## Chunks that do not overlap -/

def Disjoint (chunks : List Chunk) : Prop := chunks.Pairwise Apart

theorem Disjoint.perm {other : List Chunk} (hdisjoint : Disjoint chunks)
    (hperm : chunks.Perm other) : Disjoint other :=
  (hperm.pairwise_iff Apart.symm).mp hdisjoint

theorem disjoint_cons :
    Disjoint (chunk :: rest) ↔ (∀ other ∈ rest, chunk.Apart other) ∧ Disjoint rest :=
  List.pairwise_cons

theorem Disjoint.join (hdisjoint : Disjoint (lower :: upper :: rest))
    (hmeet : lower.finish = upper.start) : Disjoint (lower.join upper :: rest) := by
  rw [disjoint_cons, disjoint_cons] at hdisjoint
  obtain ⟨hlower, hupper, hrest⟩ := hdisjoint
  refine disjoint_cons.mpr ⟨fun other hmem => ?_, hrest⟩
  have hbelow := hlower other (List.mem_cons_of_mem _ hmem)
  have habove := hupper other hmem
  simp only [Apart, finish_join hmeet] at hbelow habove ⊢
  simp only [finish, Chunk.join, sizeofSize] at hmeet hbelow habove ⊢
  omega

theorem Disjoint.split (hdisjoint : Disjoint (chunk :: rest))
    (hroom : len + sizeofSize ≤ chunk.size) :
    Disjoint (chunk.lowerPart len :: chunk.upperPart len :: rest) := by
  obtain ⟨hchunk, hrest⟩ := disjoint_cons.mp hdisjoint
  refine disjoint_cons.mpr ⟨fun other hmem => ?_,
    disjoint_cons.mpr ⟨fun other hmem => ?_, hrest⟩⟩
  · rcases List.mem_cons.mp hmem with rfl | hmem
    · exact Or.inl (finish_lowerPart hroom).le
    · have hapart := hchunk other hmem
      simp only [Apart, finish, lowerPart, sizeofSize] at hapart hroom ⊢
      omega
  · have hapart := hchunk other hmem
    simp only [Apart, finish, upperPart, sizeofSize] at hapart hroom ⊢
    omega

/-! ## Layouts -/

/-- The chunk lies in the data area and has room for a link. -/
structure Inside (heap maxSize : ℕ) (chunk : Chunk) : Prop where
  low : heap + sizeofHeap ≤ chunk.start
  high : chunk.finish ≤ heap + maxSize
  room : sizeofFreelist - sizeofSize ≤ chunk.size

structure Layout (heap maxSize : ℕ) (free live : List Chunk) : Prop where
  bound : heap + maxSize < 2 ^ 32
  inside : ∀ chunk ∈ free ++ live, Inside heap maxSize chunk
  disjoint : Disjoint (free ++ live)
  ascending : free.Pairwise Before

theorem perm_front (front back live : List Chunk) (chunk : Chunk) :
    (front ++ chunk :: back ++ live).Perm (chunk :: (front ++ back ++ live)) := by
  rw [List.append_assoc, List.append_assoc]
  exact List.perm_middle

theorem ascending_middle :
    (front ++ chunk :: back).Pairwise Before ↔
      (front ++ back).Pairwise Before ∧ (∀ other ∈ front, other.Before chunk) ∧
        ∀ other ∈ back, chunk.Before other := by
  simp only [List.pairwise_append, List.pairwise_cons, List.mem_cons]
  constructor
  · rintro ⟨hfront, ⟨hchunk, hback⟩, hcross⟩
    exact ⟨⟨hfront, hback, fun left hleft right hright =>
      hcross left hleft right (Or.inr hright)⟩,
      fun other hmem => hcross other hmem chunk (Or.inl rfl), hchunk⟩
  · rintro ⟨⟨hfront, hback, hcross⟩, hleft, hright⟩
    refine ⟨hfront, ⟨hright, hback⟩, fun left hmem right hor => ?_⟩
    rcases hor with rfl | hor
    · exact hleft left hmem
    · exact hcross left hmem right hor

namespace Layout

theorem start_pos (hlayout : Layout heap maxSize free live)
    (hmem : chunk ∈ free ++ live) : chunk.start ≠ 0 := by
  have hlow := (hlayout.inside chunk hmem).low
  simp only [sizeofHeap] at hlow
  omega

theorem finish_lt (hlayout : Layout heap maxSize free live)
    (hmem : chunk ∈ free ++ live) : chunk.finish < 2 ^ 32 :=
  (hlayout.inside chunk hmem).high.trans_lt hlayout.bound

/-- A free chunk is handed out. -/
theorem take (hlayout : Layout heap maxSize (front ++ chunk :: back) live) :
    Layout heap maxSize (front ++ back) (chunk :: live) := by
  have hperm : (front ++ chunk :: back ++ live).Perm (front ++ back ++ chunk :: live) :=
    (perm_front front back live chunk).trans List.perm_middle.symm
  exact ⟨hlayout.bound,
    fun other hmem => hlayout.inside other (hperm.mem_iff.mpr hmem),
    hlayout.disjoint.perm hperm, (ascending_middle.mp hlayout.ascending).1⟩

/-- The upper part of a free chunk is handed out. -/
theorem split (hlayout : Layout heap maxSize (front ++ chunk :: back) live)
    (hlen : sizeofFreelist - sizeofSize ≤ len)
    (hroom : len + sizeofFreelist ≤ chunk.size) :
    Layout heap maxSize (front ++ chunk.lowerPart len :: back)
      (chunk.upperPart len :: live) := by
  have hfit : len + sizeofSize ≤ chunk.size := by
    simp only [sizeofSize, sizeofFreelist] at hroom ⊢
    omega
  have hchunk : Inside heap maxSize chunk := hlayout.inside chunk (by simp)
  have hdisjoint := (hlayout.disjoint.perm (perm_front front back live chunk)).split hfit
  have hperm : (chunk.lowerPart len :: chunk.upperPart len :: (front ++ back ++ live)).Perm
      (front ++ chunk.lowerPart len :: back ++ chunk.upperPart len :: live) :=
    ((List.Perm.cons _ List.perm_middle.symm).trans
      (perm_front front back _ _).symm)
  have hfinish := finish_lowerPart hfit
  have hupper : (chunk.upperPart len).finish = chunk.finish :=
    finish_upperPart (by omega)
  obtain ⟨hrest, hbefore, hafter⟩ := ascending_middle.mp hlayout.ascending
  refine ⟨hlayout.bound, fun other hmem => ?_, hdisjoint.perm hperm,
    ascending_middle.mpr ⟨hrest, hbefore, fun other hmem => ?_⟩⟩
  · rw [← hperm.mem_iff, List.mem_cons, List.mem_cons] at hmem
    obtain ⟨hlow, hhigh, _⟩ := hchunk
    rcases hmem with rfl | rfl | hmem
    · refine ⟨hlow, ?_, ?_⟩
      · rw [hfinish]
        simp only [finish, upperPart, sizeofSize] at hhigh ⊢
        omega
      · simp only [lowerPart, sizeofSize, sizeofFreelist] at hroom ⊢
        omega
    · refine ⟨?_, hupper.le.trans hhigh, hlen⟩
      simp only [upperPart]
      omega
    · exact hlayout.inside other
        ((perm_front front back live chunk).mem_iff.mpr (List.mem_cons_of_mem _ hmem))
  · have hlater := hafter other hmem
    simp only [Before, finish, lowerPart, sizeofSize] at hlater hfit ⊢
    omega

/-- Two chunks that do not overlap lie in the order of their starts. -/
theorem before_of_lt (hlayout : Layout heap maxSize free live)
    (hupper : upper ∈ free ++ live) (hapart : lower.Apart upper)
    (hlt : lower.start < upper.start) :
    lower.Before upper := by
  rcases hapart with hbefore | hafter
  · exact hbefore
  · have hroom := (hlayout.inside upper hupper).room
    simp only [finish, sizeofSize] at hafter
    omega

/-- A live chunk is put back at its place in the list. -/
theorem give {earlier later : List Chunk}
    (hlayout : Layout heap maxSize (front ++ back) (earlier ++ chunk :: later))
    (hfront : ∀ other ∈ front, other.start < chunk.start)
    (hback : ∀ other ∈ back, chunk.start < other.start) :
    Layout heap maxSize (front ++ chunk :: back) (earlier ++ later) := by
  have hperm : (front ++ back ++ (earlier ++ chunk :: later)).Perm
      (chunk :: (front ++ back ++ (earlier ++ later))) := by
    apply (List.Perm.append_left _ List.perm_middle).trans
    exact List.perm_middle
  have hdisjoint := hlayout.disjoint.perm hperm
  have hchunk : chunk ∈ front ++ back ++ (earlier ++ chunk :: later) := by simp
  have hapart := (disjoint_cons.mp hdisjoint).1
  refine ⟨hlayout.bound, fun other hmem => ?_,
    hdisjoint.perm (perm_front front back _ chunk).symm,
    ascending_middle.mpr ⟨hlayout.ascending, fun other hmem => ?_, fun other hmem => ?_⟩⟩
  · exact hlayout.inside other
      (hperm.mem_iff.mpr ((perm_front front back _ chunk).mem_iff.mp hmem))
  · have hother : other ∈ front ++ back := List.mem_append_left _ hmem
    exact hlayout.before_of_lt hchunk (hapart other (List.mem_append_left _ hother)).symm
      (hfront other hmem)
  · have hother : other ∈ front ++ back := List.mem_append_right _ hmem
    exact hlayout.before_of_lt (List.mem_append_left _ hother)
      (hapart other (List.mem_append_left _ hother)) (hback other hmem)

/-- A free chunk is joined with the free chunk behind it. -/
theorem join (hlayout : Layout heap maxSize (front ++ lower :: upper :: back) live)
    (hmeet : lower.finish = upper.start) :
    Layout heap maxSize (front ++ lower.join upper :: back) live := by
  have hperm : (front ++ lower :: upper :: back ++ live).Perm
      (lower :: upper :: (front ++ back ++ live)) :=
    (perm_front front (upper :: back) live lower).trans
      (List.Perm.cons _ (perm_front front back live upper))
  have hfinish := finish_join hmeet
  obtain ⟨hrest, hbefore, _⟩ := ascending_middle.mp hlayout.ascending
  obtain ⟨hrest, _, hafter⟩ := ascending_middle.mp hrest
  refine ⟨hlayout.bound, fun other hmem => ?_,
    ((hlayout.disjoint.perm hperm).join hmeet).perm (perm_front front back live _).symm,
    ascending_middle.mpr ⟨hrest, hbefore, fun other hmem => ?_⟩⟩
  · rw [(perm_front front back live _).mem_iff, List.mem_cons] at hmem
    rcases hmem with rfl | hmem
    · have hlower : Inside heap maxSize lower := hlayout.inside lower (by simp)
      have hupper : Inside heap maxSize upper := hlayout.inside upper (by simp)
      refine ⟨hlower.low, hfinish.le.trans hupper.high, ?_⟩
      have hroom := hlower.room
      simp only [Chunk.join]
      omega
    · refine hlayout.inside other (hperm.mem_iff.mpr ?_)
      exact List.mem_cons_of_mem _ (List.mem_cons_of_mem _ hmem)
  · rw [Before, hfinish]
    exact hafter other hmem

end Layout

/-! ## Chunks in memory -/

/-- The address of the first chunk, or null. -/
def firstStart : List Chunk → ℕ
  | [] => 0
  | chunk :: _ => chunk.start

/-- The address of the last chunk, or null. -/
def lastStart (chunks : List Chunk) : ℕ := firstStart chunks.reverse

/-- The free list is linked through the chunks it consists of, and every chunk
has its size in front. -/
structure Represents (memory : Memory) (heap maxSize : ℕ) (free live : List Chunk) :
    Prop where
  layout : Layout heap maxSize free live
  sizes : ∀ chunk ∈ free ++ live, chunkSize memory chunk.start = chunk.size
  chain : Chain (chunkNext memory) 0 (heapFreelist memory heap) (free.map Chunk.start)

/-- The bytes the allocator relies on: the head of the list, the size words,
and the links of the free chunks. -/
inductive Bookkeeping (heap : ℕ) (free live : List Chunk) (position : ℕ) : Prop
  | head (hlow : freelistSlot heap ≤ position) (hhigh : position < freelistSlot heap + 4)
  | size {chunk : Chunk} (hmem : chunk ∈ free ++ live) (hlow : chunk.start ≤ position)
      (hhigh : position < chunk.start + 4)
  | link {chunk : Chunk} (hmem : chunk ∈ free) (hlow : chunk.data ≤ position)
      (hhigh : position < chunk.data + 4)

theorem nextSlot_eq (hlayout : Layout heap maxSize free live)
    (hmem : chunk ∈ free ++ live) : nextSlot chunk.start = chunk.data := by
  have hlt := hlayout.finish_lt hmem
  simp only [finish] at hlt
  exact u32_of_lt (by omega)

theorem load32_eq_of_bytes {address : ℕ}
    (hsame : ∀ position, address ≤ position → position < address + 4 →
      memory' position = memory position) :
    load32 memory' address = load32 memory address :=
  load32_congr fun _ _ => hsame _ (by omega) (by omega)

/-- Writes elsewhere do not matter. -/
theorem Represents.congr (hrepresents : Represents memory heap maxSize free live)
    (hsame : ∀ position, Bookkeeping heap free live position →
      memory' position = memory position) :
    Represents memory' heap maxSize free live where
  layout := hrepresents.layout
  sizes := fun chunk hmem => by
    rw [← hrepresents.sizes chunk hmem]
    exact load32_eq_of_bytes fun position hlow hhigh =>
      hsame position (.size hmem hlow hhigh)
  chain := by
    have hhead : heapFreelist memory' heap = heapFreelist memory heap :=
      load32_eq_of_bytes fun position hlow hhigh => hsame position (.head hlow hhigh)
    rw [hhead]
    refine hrepresents.chain.congr fun start hmem => ?_
    obtain ⟨chunk, hchunk, rfl⟩ := List.mem_map.mp hmem
    have hslot := nextSlot_eq hrepresents.layout (List.mem_append_left live hchunk)
    simp only [chunkNext, hslot]
    exact load32_eq_of_bytes fun position hlow hhigh =>
      hsame position (.link hchunk hlow hhigh)

theorem Layout.apart_of_ne (hlayout : Layout heap maxSize free live)
    (hlower : lower ∈ free ++ live) (hupper : upper ∈ free ++ live)
    (hne : lower ≠ upper) : lower.Apart upper :=
  List.Pairwise.forall hlayout.disjoint hlower hupper hne

theorem Layout.apart_of_free_live (hlayout : Layout heap maxSize free live)
    (hlower : lower ∈ free) (hupper : upper ∈ live) : lower.Apart upper :=
  (List.pairwise_append.mp hlayout.disjoint).2.2 lower hlower upper hupper

/-- The counters of the heap record are not relied on. -/
theorem Bookkeeping.notCounter {position : ℕ} (hlayout : Layout heap maxSize free live)
    (hposition : Bookkeeping heap free live position) :
    position < heap + 8 ∨ heap + sizeofHeap ≤ position := by
  cases hposition with
  | head _ hhigh =>
      left
      exact hhigh
  | size hmem hlow _ =>
      right
      exact (hlayout.inside _ hmem).low.trans hlow
  | link hmem hlow _ =>
      right
      have hinside := (hlayout.inside _ (List.mem_append_left live hmem)).low
      simp only [data] at hlow
      omega

/-- Everything the allocator relies on lies in the heap. -/
theorem Bookkeeping.inHeap {position : ℕ} (hlayout : Layout heap maxSize free live)
    (hheap : sizeofHeap ≤ maxSize) (hposition : Bookkeeping heap free live position) :
    heap ≤ position ∧ position < heap + maxSize := by
  have hmember : ∀ chunk ∈ free ++ live, heap ≤ chunk.start ∧
      chunk.data + 4 ≤ heap + maxSize := by
    intro chunk hmem
    obtain ⟨hlow, hhigh, hroom⟩ := hlayout.inside chunk hmem
    simp only [finish, data, sizeofFreelist, sizeofSize] at hhigh hroom ⊢
    omega
  simp only [sizeofHeap] at hheap
  cases hposition with
  | head hlow hhigh =>
      simp only [freelistSlot] at hlow hhigh
      omega
  | size hmem hlow hhigh =>
      have hrange := hmember _ hmem
      simp only [data, sizeofSize] at hrange
      omega
  | link hmem hlow hhigh =>
      have hrange := hmember _ (List.mem_append_left live hmem)
      simp only [data, sizeofSize] at hlow hhigh hrange
      omega

/-- The data of a live chunk belongs to the caller. -/
theorem Bookkeeping.notLive {position : ℕ} (hlayout : Layout heap maxSize free live)
    (hposition : Bookkeeping heap free live position) (hmem : chunk ∈ live) :
    position < chunk.data ∨ chunk.finish ≤ position := by
  have hchunk : chunk ∈ free ++ live := List.mem_append_right free hmem
  cases hposition with
  | head _ hhigh =>
      have hlow := (hlayout.inside chunk hchunk).low
      simp only [freelistSlot, sizeofHeap, data] at hhigh hlow ⊢
      omega
  | @size other hother hlow hhigh =>
      by_cases heq : other = chunk
      · left
        rw [heq] at hhigh
        exact hhigh
      · have hapart := hlayout.apart_of_ne hother hchunk heq
        have hroom := (hlayout.inside other hother).room
        simp only [Apart, finish, data, sizeofSize, sizeofFreelist] at hapart hroom ⊢
        omega
  | @link other hother hlow hhigh =>
      have hapart := hlayout.apart_of_free_live hother hmem
      have hroom := (hlayout.inside other (List.mem_append_left live hother)).room
      simp only [Apart, finish, data, sizeofSize, sizeofFreelist] at hapart hroom hlow hhigh ⊢
      omega

end GeexOS.Heap
