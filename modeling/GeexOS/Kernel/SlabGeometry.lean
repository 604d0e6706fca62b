import GeexOS.Kernel.SlabCache
import Mathlib.Data.Set.Disjoint
import Mathlib.Order.CompletePartialOrder
import Mathlib.Order.Interval.Set.Disjoint
import Mathlib.Algebra.Order.Group.Nat
import Mathlib.Tactic.IntervalCases

/-!
# Slab geometry of small caches

`CreateCache` decides between a small and a large cache by the requested size,
`EstimateNrObjects` reserves room for the slab header by the aligned size, and
`Grow` lays the block out.  The two size tests disagree from `SLAB_LIMIT` on;
the main theorem states for which requests the three parts still fit together.
-/

namespace GeexOS.SlabAllocator

open GeexOS.Words
open GeexOS.Halting
open GeexOS.DataStructures

/-! ## Layout of a slab -/

def pagealignMask : ℕ := 0xFFFFF000

/-- Where `SmallCache::Grow` puts the objects of the block at `newSlab`. -/
def objectStart (cache : SlabCache) (newSlab : ℕ) : ℕ :=
  sub32 (u32 (newSlab + 1 <<< cache.order <<< pageShift))
    (u32 (cache.objSize * cache.objectsPerSlab))

/-- `GetFreeArray` of a small cache: directly behind the header. -/
def freeArrayStart (newSlab : ℕ) : ℕ := newSlab + sizeofSlab

/-- The header `SmallCache::Grow` writes at `newSlab`. -/
def initialSlab (cache : SlabCache) (newSlab : ℕ) : Slab where
  objectStart := objectStart cache newSlab
  freeIndex := 0
  inUse := 0
  magicValid := slabMagicValid

/-- The block at `newSlab` that a slab of the cache occupies. -/
def blockRange (cache : SlabCache) (newSlab : ℕ) : Set ℕ :=
  Set.Ico newSlab (newSlab + 2 ^ (cache.order + pageShift))

def headerRange (newSlab : ℕ) : Set ℕ :=
  Set.Ico newSlab (newSlab + sizeofSlab)

def freeArrayRange (cache : SlabCache) (newSlab : ℕ) : Set ℕ :=
  Set.Ico (freeArrayStart newSlab)
    (freeArrayStart newSlab + 4 * cache.objectsPerSlab)

def objectRange (cache : SlabCache) (slab : Slab) : Set ℕ :=
  Set.Ico slab.objectStart
    (slab.objectStart + cache.objSize * cache.objectsPerSlab)

/-- The slab initialised at `newSlab` keeps its parts apart and inside its
block, serves the requested size, and is found again from its objects. -/
structure SlabGeometry (cache : SlabCache) (objectSize newSlab : ℕ) : Prop where
  header_array : Disjoint (headerRange newSlab) (freeArrayRange cache newSlab)
  header_objects : Disjoint (headerRange newSlab)
    (objectRange cache (initialSlab cache newSlab))
  array_objects : Disjoint (freeArrayRange cache newSlab)
    (objectRange cache (initialSlab cache newSlab))
  header_inside : headerRange newSlab ⊆ blockRange cache newSlab
  array_inside : freeArrayRange cache newSlab ⊆ blockRange cache newSlab
  objects_inside :
    objectRange cache (initialSlab cache newSlab) ⊆ blockRange cache newSlab
  size_le : objectSize ≤ cache.objSize
  recovered : ∀ address ∈ objectRange cache (initialSlab cache newSlab),
    address &&& pagealignMask = newSlab

/-! ## Alignment -/

/-- Halving stops at a power of two not above twice the size, or at the given
alignment. -/
theorem reduceAlign_pow {size exponent fuel : ℕ} (hfuel : exponent ≤ fuel) :
    ∃ reduced ≤ exponent, reduceAlign size fuel (2 ^ exponent) = 2 ^ reduced ∧
      2 ^ reduced / 2 ≤ size ∧ (reduced = exponent ∨ size < 2 ^ reduced) := by
  induction exponent generalizing fuel with
  | zero =>
      refine ⟨0, le_rfl, ?_, by simp, Or.inl rfl⟩
      cases fuel with
      | zero => rfl
      | succ fuel => simp [reduceAlign]
  | succ exponent ih =>
      obtain ⟨fuel, rfl⟩ : ∃ rest, fuel = rest + 1 := ⟨fuel - 1, by omega⟩
      have hhalf : 2 ^ (exponent + 1) / 2 = 2 ^ exponent := by
        rw [pow_succ]
        omega
      by_cases hsize : size < 2 ^ exponent
      · obtain ⟨reduced, hle, hvalue, hhalved, hreduced⟩ :=
          ih (Nat.le_of_succ_le_succ hfuel)
        refine ⟨reduced, by omega, ?_, hhalved, Or.inr ?_⟩
        · rw [reduceAlign, hhalf, if_pos hsize, hvalue]
        · rcases hreduced with rfl | hlt
          · exact hsize
          · exact hlt
      · refine ⟨exponent + 1, le_rfl, ?_, ?_, Or.inl rfl⟩
        · rw [reduceAlign, hhalf, if_neg hsize]
        · rw [hhalf]
          omega

theorem reduceAlign_zero (size fuel : ℕ) : reduceAlign size fuel 0 = 0 := by
  induction fuel with
  | zero => rfl
  | succ fuel ih => simp [reduceAlign]

/-- `ALIGN_TO_VAL` rounds up to the boundary. -/
theorem alignToVal_pow {value exponent : ℕ} (hexponent : exponent ≤ 32)
    (hsum : value + 2 ^ exponent ≤ 2 ^ 32) :
    alignToVal value (2 ^ exponent) =
      (value + 2 ^ exponent - 1) / 2 ^ exponent * 2 ^ exponent := by
  have hpos : 0 < 2 ^ exponent := Nat.two_pow_pos exponent
  have hvalue : u32 (value + 2 ^ exponent + (2 ^ 32 - 1)) =
      value + 2 ^ exponent - 1 := by
    unfold u32
    omega
  rw [alignToVal, hvalue, land_mask (by omega) hexponent]

/-- The size an object of `objectSize` bytes gets under a requested
alignment. -/
def alignedSize (objectSize alignment : ℕ) : ℕ :=
  let align := reduceAlign objectSize 32 alignment
  if align ≠ 0 then alignToVal objectSize align else objectSize

/-- A small request is rounded up to a power of two: the alignment itself, or
a smaller power of two just above the request. -/
theorem alignedSize_pow {objectSize exponent : ℕ} (hsize : objectSize ≤ slabLimit)
    (hexponent : exponent < 32) :
    ∃ reduced ≤ 10,
      (2 ^ exponent = 2 ^ reduced ∨
        (2 * 2 ^ reduced ≤ 2 ^ exponent ∧ objectSize < 2 ^ reduced)) ∧
      2 ^ reduced / 2 ≤ objectSize ∧
      alignedSize objectSize (2 ^ exponent) =
        (objectSize + 2 ^ reduced - 1) / 2 ^ reduced * 2 ^ reduced := by
  obtain ⟨reduced, hle, hvalue, hhalf, hreduced⟩ :
      ∃ reduced ≤ exponent, reduceAlign objectSize 32 (2 ^ exponent) = 2 ^ reduced ∧
        2 ^ reduced / 2 ≤ objectSize ∧
        (reduced = exponent ∨ objectSize < 2 ^ reduced) :=
    reduceAlign_pow (Nat.le_of_lt hexponent)
  have hlimit : objectSize ≤ 512 := hsize
  have hten : reduced ≤ 10 := by
    by_contra hgt
    have hbig : 2 ^ 11 ≤ 2 ^ reduced := Nat.pow_le_pow_right (by norm_num) (by omega)
    omega
  have hpow : 2 ^ reduced ≤ 2 ^ 10 := Nat.pow_le_pow_right (by norm_num) hten
  refine ⟨reduced, hten, ?_, hhalf, ?_⟩
  · rcases Nat.eq_or_lt_of_le hle with rfl | hlt
    · exact Or.inl rfl
    · refine Or.inr ⟨?_, hreduced.resolve_left hlt.ne⟩
      calc 2 * 2 ^ reduced = 2 ^ (reduced + 1) := by ring
        _ ≤ 2 ^ exponent := Nat.pow_le_pow_right (by norm_num) hlt
  · have hne : 2 ^ reduced ≠ 0 := by positivity
    simp only [alignedSize, hvalue, ne_eq, hne, not_false_eq_true, if_true]
    exact alignToVal_pow (by omega) (by omega)

theorem alignedSize_zero (objectSize : ℕ) : alignedSize objectSize 0 = objectSize := by
  simp [alignedSize, reduceAlign_zero]

/-! ## Number of objects -/

section Estimate

variable {objSize headSize perElement total : ℕ}

/-- Without wrap-around the counting loop stops one past the largest number of
objects that fits. -/
theorem estimateLoop_eq (hhead : headSize ≤ total)
    (hobject : 0 < objSize + perElement)
    (hwrap : total + (objSize + perElement) < 2 ^ 32) {fuel i : ℕ}
    (hlower : i ≤ (total - headSize) / (objSize + perElement) + 1)
    (hfuel : (total - headSize) / (objSize + perElement) + 1 < i + fuel) :
    estimateLoop objSize headSize perElement total fuel i =
      .ok ((total - headSize) / (objSize + perElement) + 1) := by
  induction fuel generalizing i with
  | zero => omega
  | succ fuel ih =>
      have hused : usedBytes objSize headSize perElement i =
          i * (objSize + perElement) + headSize := by
        have hbound : i * (objSize + perElement) ≤
            total - headSize + (objSize + perElement) := by
          calc i * (objSize + perElement)
              ≤ ((total - headSize) / (objSize + perElement) + 1) *
                  (objSize + perElement) := Nat.mul_le_mul_right _ hlower
            _ = (total - headSize) / (objSize + perElement) *
                  (objSize + perElement) + (objSize + perElement) := by ring
            _ ≤ total - headSize + (objSize + perElement) :=
                Nat.add_le_add_right (Nat.div_mul_le_self _ _) _
        have hsum : i * objSize + headSize + perElement * i =
            i * (objSize + perElement) + headSize := by ring
        rw [usedBytes, hsum, u32_of_lt (by omega)]
      by_cases hfits : i ≤ (total - headSize) / (objSize + perElement)
      · have hmul := (Nat.le_div_iff_mul_le hobject).mp hfits
        rw [estimateLoop, if_pos (by omega)]
        exact ih (by omega) (by omega)
      · have hmul := mt (Nat.le_div_iff_mul_le hobject).mpr hfits
        rw [estimateLoop, if_neg (by omega)]
        congr 1
        omega

end Estimate

/-- Objects below the limit leave room for the header and the free array. -/
theorem estimateNrObjects_onSlab {objSize : ℕ} (hpos : 0 < objSize)
    (hlimit : objSize < slabLimit) :
    ∃ wastage, estimateNrObjects 0 objSize =
      .ok ((pageSize - sizeofSlab) / (objSize + 4), wastage) := by
  have hsmall : objSize < 512 := hlimit
  have hdiv : (pageSize - sizeofSlab) / (objSize + 4) ≤ pageSize :=
    (Nat.div_le_self _ _).trans (Nat.sub_le _ _)
  have hnr : (pageSize - sizeofSlab) / (objSize + 4) + 1 ≠ 0 := Nat.succ_ne_zero _
  have hloop : estimateLoop objSize sizeofSlab 4 pageSize (pageSize + 2) 0 =
      .ok ((pageSize - sizeofSlab) / (objSize + 4) + 1) :=
    estimateLoop_eq (by decide) (by omega) (by simp only [pageSize]; omega)
      (Nat.zero_le _) (by omega)
  have htotal : (1 <<< 0 <<< pageShift : ℕ) = pageSize := by decide
  refine ⟨pageSize - usedBytes objSize sizeofSlab 4
    ((pageSize - sizeofSlab) / (objSize + 4)), ?_⟩
  simp only [estimateNrObjects, hlimit, if_true, htotal, hloop, ok_bind, hnr,
    ne_eq, not_false_eq_true, Nat.add_sub_cancel]

/-- Objects from the limit on are counted as if nothing else lay in the
block. -/
theorem estimateNrObjects_offSlab {objSize : ℕ} (hlimit : slabLimit ≤ objSize)
    (hpage : objSize ≤ pageSize) :
    ∃ wastage, estimateNrObjects 0 objSize = .ok (pageSize / objSize, wastage) := by
  have hlarge : 512 ≤ objSize := hlimit
  have hupper : objSize ≤ 4096 := hpage
  have hdiv : pageSize / objSize ≤ pageSize := Nat.div_le_self _ _
  have hnr : pageSize / objSize + 1 ≠ 0 := Nat.succ_ne_zero _
  have hloop : estimateLoop objSize 0 0 pageSize (pageSize + 2) 0 =
      .ok (pageSize / objSize + 1) :=
    estimateLoop_eq (by decide) (by omega) (by simp only [pageSize]; omega)
      (Nat.zero_le _) (by simp only [Nat.sub_zero, Nat.add_zero]; omega)
  have htotal : (1 <<< 0 <<< pageShift : ℕ) = pageSize := by decide
  have hbig : ¬ objSize < slabLimit := by omega
  refine ⟨pageSize - usedBytes objSize 0 0 (pageSize / objSize), ?_⟩
  simp only [estimateNrObjects, hbig, if_false, htotal, hloop, ok_bind, hnr,
    ne_eq, not_false_eq_true, if_true, Nat.add_sub_cancel]

/-- A slab of one page holds a fitting object, so the first order is taken. -/
theorem getObjectCount_of_estimate {objectSize alignment nr wastage : ℕ}
    (hestimate : estimateNrObjects 0 (alignedSize objectSize alignment) =
      .ok (nr, wastage)) (hnr : nr ≠ 0) :
    getObjectCount objectSize alignment =
      .ok ⟨nr, alignedSize objectSize alignment, 0, wastage⟩ := by
  have hloop : orderLoop (alignedSize objectSize alignment) (slabMaxOrder + 1) 0 =
      .ok (nr, wastage, 0) := by
    simp only [orderLoop, hestimate, ok_bind, hnr, ne_eq, not_false_eq_true, if_true]
  have hcount : getObjectCount objectSize alignment =
      (orderLoop (alignedSize objectSize alignment) (slabMaxOrder + 1) 0 >>=
        fun result => .ok ⟨result.1, alignedSize objectSize alignment,
          result.2.2, result.2.1⟩) := rfl
  rw [hcount, hloop, ok_bind]

/-! ## Geometry of one-page slabs -/

section Page

variable {cache : SlabCache} {objectSize newSlab : ℕ}

/-- The objects end where the block ends. -/
theorem objectRange_initialSlab (horder : cache.order = 0)
    (hfit : cache.objSize * cache.objectsPerSlab ≤ pageSize)
    (hobjects : 0 < cache.objSize * cache.objectsPerSlab)
    (hnewSlab : newSlab + pageSize ≤ 2 ^ 32) :
    objectRange cache (initialSlab cache newSlab) =
      Set.Ico (newSlab + (pageSize - cache.objSize * cache.objectsPerSlab))
        (newSlab + pageSize) := by
  have hshift : (1 <<< 0 <<< pageShift : ℕ) = pageSize := by decide
  have hstart : objectStart cache newSlab =
      newSlab + (pageSize - cache.objSize * cache.objectsPerSlab) := by
    simp only [objectStart, horder, hshift, sub32, u32, pageSize] at *
    omega
  have hend : newSlab + (pageSize - cache.objSize * cache.objectsPerSlab) +
      cache.objSize * cache.objectsPerSlab = newSlab + pageSize := by omega
  simp only [objectRange, initialSlab, hstart, hend]

/-- Header, array and objects fit into the page exactly if there is room for
all of them. -/
theorem slabGeometry_iff (horder : cache.order = 0)
    (hfit : cache.objSize * cache.objectsPerSlab ≤ pageSize)
    (hnr : 0 < cache.objectsPerSlab) (hobjectSize : 0 < objectSize)
    (haligned : newSlab % pageSize = 0) (hnewSlab : newSlab + pageSize ≤ 2 ^ 32) :
    SlabGeometry cache objectSize newSlab ↔
      objectSize ≤ cache.objSize ∧
        sizeofSlab + 4 * cache.objectsPerSlab +
          cache.objSize * cache.objectsPerSlab ≤ pageSize := by
  have hpage : pageSize = 4096 := rfl
  have hhead : sizeofSlab = 28 := rfl
  have hblock : blockRange cache newSlab = Set.Ico newSlab (newSlab + pageSize) := by
    rw [blockRange, horder]
    rfl
  constructor
  · intro hgeometry
    have hsize := hgeometry.size_le
    refine ⟨hsize, ?_⟩
    have hobjects : 0 < cache.objSize * cache.objectsPerSlab :=
      Nat.mul_pos (by omega) hnr
    have hheader := hgeometry.header_objects
    have harray := hgeometry.array_objects
    rw [objectRange_initialSlab horder hfit hobjects hnewSlab] at hheader harray
    simp only [headerRange, freeArrayRange, freeArrayStart,
      Set.Ico_disjoint_Ico] at hheader harray
    omega
  · rintro ⟨hsize, hroom⟩
    have hobjects : 0 < cache.objSize * cache.objectsPerSlab :=
      Nat.mul_pos (by omega) hnr
    have hrange := objectRange_initialSlab horder hfit hobjects hnewSlab
    constructor
    · simp only [headerRange, freeArrayRange, freeArrayStart, Set.Ico_disjoint_Ico]
      omega
    · simp only [hrange, headerRange, Set.Ico_disjoint_Ico]
      omega
    · simp only [hrange, freeArrayRange, freeArrayStart, Set.Ico_disjoint_Ico]
      omega
    · rw [hblock, headerRange]
      exact Set.Ico_subset_Ico le_rfl (by omega)
    · rw [hblock, freeArrayRange, freeArrayStart]
      exact Set.Ico_subset_Ico (by omega) (by omega)
    · rw [hblock, hrange]
      exact Set.Ico_subset_Ico (by omega) le_rfl
    · exact hsize
    · intro address haddress
      rw [hrange, Set.mem_Ico] at haddress
      have hmask : pagealignMask = 2 ^ 32 - 2 ^ 12 := by decide
      rw [hpage] at haligned haddress
      rw [hmask, land_mask (by omega) (by norm_num)]
      omega

end Page

/-! ## Small caches -/

section SmallCache

variable {objectSize alignment : ℕ}

/-- A requested alignment is absent or a power of two. -/
def IsAlignment (alignment : ℕ) : Prop :=
  alignment = 0 ∨ ∃ exponent < 32, alignment = 2 ^ exponent

/-- A small request is rounded up to less than the limit, or to a size that
fills the page. -/
theorem alignedSize_cases (hsize : objectSize ≤ slabLimit)
    (halignment : IsAlignment alignment) :
    objectSize ≤ alignedSize objectSize alignment ∧
      (alignedSize objectSize alignment < slabLimit ∨
        alignedSize objectSize alignment = 512 ∨
        alignedSize objectSize alignment = 1024) := by
  have hlimit : slabLimit = 512 := rfl
  rcases halignment with rfl | ⟨exponent, hexponent, rfl⟩
  · rw [alignedSize_zero]
    omega
  · obtain ⟨reduced, hten, hreduced, hhalf, hvalue⟩ :=
      alignedSize_pow hsize hexponent
    rw [hvalue]
    clear hvalue hreduced
    interval_cases reduced <;> omega

/-- No power of two lies between 256 and 512. -/
theorem pow_le_or_le (exponent : ℕ) : 2 ^ exponent ≤ 256 ∨ 512 ≤ 2 ^ exponent := by
  rcases Nat.lt_or_ge exponent 9 with hlt | hge
  · left
    calc 2 ^ exponent ≤ 2 ^ 8 := Nat.pow_le_pow_right (by norm_num) (by omega)
      _ = 256 := by norm_num
  · right
    calc 512 = 2 ^ 9 := by norm_num
      _ ≤ 2 ^ exponent := Nat.pow_le_pow_right (by norm_num) hge

/-- When the aligned size stays below the limit. -/
theorem alignedSize_lt_iff (hsize : objectSize ≤ slabLimit)
    (halignment : IsAlignment alignment) :
    alignedSize objectSize alignment < slabLimit ↔
      objectSize < slabLimit ∧
        (alignment = 0 ∨
          (alignment ≤ 256 ∧ objectSize + alignment ≤ slabLimit) ∨
          (512 ≤ alignment ∧ objectSize < 256)) := by
  have hlimit : slabLimit = 512 := rfl
  rcases halignment with rfl | ⟨exponent, hexponent, rfl⟩
  · simp [alignedSize_zero]
  · obtain ⟨reduced, hten, hreduced, hhalf, hvalue⟩ :=
      alignedSize_pow hsize hexponent
    have hgap := pow_le_or_le exponent
    rw [hvalue, hlimit]
    rw [hlimit] at hsize
    clear hvalue
    generalize 2 ^ exponent = align at *
    interval_cases reduced <;> omega

/-- When an aligned size below the limit keeps room for the request after the
terminator of an overlong name has cleared its lowest byte. -/
theorem le_clearByte_alignedSize_iff (hpos : 0 < objectSize)
    (hsize : objectSize ≤ slabLimit) (halignment : IsAlignment alignment) :
    alignedSize objectSize alignment < slabLimit ∧
        objectSize ≤ alignedSize objectSize alignment / 256 * 256 ↔
      (alignment = 0 ∧ objectSize = 256) ∨
        (0 < alignment ∧ alignment ≤ 256 ∧ objectSize ≤ 256 ∧
          256 < objectSize + alignment ∧ alignment ≤ 2 * objectSize) ∨
        (512 ≤ alignment ∧ 128 ≤ objectSize ∧ objectSize < 256) := by
  have hlimit : slabLimit = 512 := rfl
  rcases halignment with rfl | ⟨exponent, hexponent, rfl⟩
  · rw [alignedSize_zero, hlimit]
    omega
  · obtain ⟨reduced, hten, hreduced, hhalf, hvalue⟩ :=
      alignedSize_pow hsize hexponent
    have hgap := pow_le_or_le exponent
    have hne : 0 < 2 ^ exponent := Nat.two_pow_pos exponent
    rw [hvalue, hlimit]
    rw [hlimit] at hsize
    clear hvalue
    generalize 2 ^ exponent = align at *
    interval_cases reduced <;> omega

theorem createCache_small {cacheList : List SlabCache} {buffer : ℕ}
    {cacheName : Option (List UInt8)} {cache : SlabCache}
    (hcreate : createCache cacheList buffer cacheName objectSize alignment =
      .ok (some (.small cache))) :
    ∃ name, cacheName = some name ∧ name.length ≤ slabMaxNamelen ∧
      0 < objectSize ∧ objectSize ≤ slabLimit ∧
      slabCache name alignment objectSize = .ok cache := by
  cases cacheName with
  | none => simp [createCache] at hcreate
  | some name =>
      simp only [createCache] at hcreate
      split at hcreate
      · simp at hcreate
      split at hcreate
      · simp at hcreate
      split at hcreate
      · simp at hcreate
      split at hcreate
      · simp at hcreate
      rename_i hlength horder _ _
      split at hcreate
      · obtain ⟨large, _, hlarge⟩ := bind_eq_ok.mp hcreate
        simp at hlarge
      · obtain ⟨small, hslabCache, hsmall⟩ := bind_eq_ok.mp hcreate
        have heq : small = cache := by simpa using hsmall
        subst heq
        refine ⟨name, rfl, by omega, ?_, by omega, hslabCache⟩
        rcases Nat.eq_zero_or_pos objectSize with rfl | hpos
        · exact absurd (by decide : getOrder 0 > slabMaxOrder) horder
        · exact hpos

theorem slabCache_eq_ok {name : List UInt8} {cache : SlabCache}
    {nr objSize order wastage : ℕ}
    (hcount : getObjectCount objectSize alignment = .ok ⟨nr, objSize, order, wastage⟩)
    (hcache : slabCache name alignment objectSize = .ok cache) :
    cache.order = order ∧ cache.objectsPerSlab = nr ∧
      cache.objSize = strcpyName name objSize := by
  simp only [slabCache, hcount, ok_bind] at hcache
  split at hcache
  · simp at hcache
  · obtain rfl := Except.ok.inj hcache
    exact ⟨rfl, rfl, rfl⟩

theorem strcpyName_le (name : List UInt8) (objSize : ℕ) :
    strcpyName name objSize ≤ objSize := by
  unfold strcpyName
  split <;> omega

/-- The slabs of a small cache have a sound geometry exactly if the aligned
size is below the limit and still covers the request after the name has been
copied. -/
theorem slabGeometry_iff_alignedSize {name : List UInt8} {cache : SlabCache}
    {newSlab : ℕ} (hpos : 0 < objectSize) (hsize : objectSize ≤ slabLimit)
    (halignment : IsAlignment alignment)
    (hcache : slabCache name alignment objectSize = .ok cache)
    (haligned : newSlab % pageSize = 0)
    (hnewSlab : newSlab + 2 ^ (cache.order + pageShift) ≤ 2 ^ 32) :
    SlabGeometry cache objectSize newSlab ↔
      alignedSize objectSize alignment < slabLimit ∧
        objectSize ≤ strcpyName name (alignedSize objectSize alignment) := by
  obtain ⟨hle, hcases⟩ := alignedSize_cases hsize halignment
  have hlimit : slabLimit = 512 := rfl
  have hpage : pageSize = 4096 := rfl
  have hhead : sizeofSlab = 28 := rfl
  by_cases hsmall : alignedSize objectSize alignment < slabLimit
  · obtain ⟨wastage, hestimate⟩ := estimateNrObjects_onSlab (hpos.trans_le hle) hsmall
    have hnr : 0 < (pageSize - sizeofSlab) / (alignedSize objectSize alignment + 4) :=
      Nat.div_pos (by omega) (by omega)
    obtain ⟨horder, hobjects, hobjSize⟩ := slabCache_eq_ok
      (getObjectCount_of_estimate hestimate hnr.ne') hcache
    have hroom : sizeofSlab + 4 * cache.objectsPerSlab +
        cache.objSize * cache.objectsPerSlab ≤ pageSize := by
      have hdiv := Nat.div_mul_le_self (pageSize - sizeofSlab)
        (alignedSize objectSize alignment + 4)
      calc sizeofSlab + 4 * cache.objectsPerSlab +
            cache.objSize * cache.objectsPerSlab
          = sizeofSlab + cache.objectsPerSlab * (cache.objSize + 4) := by ring
        _ ≤ sizeofSlab + cache.objectsPerSlab *
              (alignedSize objectSize alignment + 4) := by
            refine Nat.add_le_add_left (Nat.mul_le_mul_left _ ?_) _
            exact Nat.add_le_add_right (hobjSize ▸ strcpyName_le name _) 4
        _ ≤ pageSize := by
            rw [hobjects]
            omega
    have hcount : 0 < cache.objectsPerSlab := by
      rw [hobjects]
      exact hnr
    rw [horder] at hnewSlab
    rw [slabGeometry_iff horder (by omega) hcount hpos haligned hnewSlab, hobjSize]
    rw [hobjSize] at hroom
    exact ⟨fun hfit => ⟨hsmall, hfit.1⟩, fun hfit => ⟨hfit.2, hroom⟩⟩
  · -- the header was not counted: the objects fill the whole page
    have hfull : alignedSize objectSize alignment = 512 ∨
        alignedSize objectSize alignment = 1024 := hcases.resolve_left hsmall
    obtain ⟨wastage, hestimate⟩ :=
      estimateNrObjects_offSlab (not_lt.mp hsmall) (by omega)
    have hnr : 0 < pageSize / alignedSize objectSize alignment :=
      Nat.div_pos (by omega) (by omega)
    obtain ⟨horder, hobjects, hobjSize⟩ := slabCache_eq_ok
      (getObjectCount_of_estimate hestimate hnr.ne') hcache
    have hproduct : cache.objSize * cache.objectsPerSlab = pageSize := by
      rw [hobjSize, hobjects, strcpyName]
      rcases hfull with heq | heq <;> rw [heq] <;> split <;> rfl
    have hcount : 0 < cache.objectsPerSlab := by
      rw [hobjects]
      exact hnr
    rw [horder] at hnewSlab
    rw [slabGeometry_iff horder hproduct.le hcount hpos haligned hnewSlab, hproduct]
    exact ⟨fun hfit => absurd hfit.2 (by omega), fun hfit => absurd hfit.1 hsmall⟩

/-- The requests for which the three parts agree.  A name of 40 characters
costs the lowest byte of the object size. -/
def LayoutFits (nameLength objectSize alignment : ℕ) : Prop :=
  if nameLength < slabMaxNamelen then
    objectSize < slabLimit ∧
      (alignment = 0 ∨
        (alignment ≤ 256 ∧ objectSize + alignment ≤ slabLimit) ∨
        (512 ≤ alignment ∧ objectSize < 256))
  else
    (alignment = 0 ∧ objectSize = 256) ∨
      (0 < alignment ∧ alignment ≤ 256 ∧ objectSize ≤ 256 ∧
        256 < objectSize + alignment ∧ alignment ≤ 2 * objectSize) ∨
      (512 ≤ alignment ∧ 128 ≤ objectSize ∧ objectSize < 256)

/-- Every slab of a small cache has a sound geometry exactly for the requests
that fit. -/
theorem smallCache_geometry_iff {cacheList : List SlabCache} {buffer newSlab : ℕ}
    {name : List UInt8} {cache : SlabCache} (halignment : IsAlignment alignment)
    (hcreate : createCache cacheList buffer (some name) objectSize alignment =
      .ok (some (.small cache)))
    (haligned : newSlab % pageSize = 0)
    (hnewSlab : newSlab + 2 ^ (cache.order + pageShift) ≤ 2 ^ 32) :
    SlabGeometry cache objectSize newSlab ↔
      LayoutFits name.length objectSize alignment := by
  obtain ⟨name', hname, hlength, hpos, hsize, hcache⟩ := createCache_small hcreate
  obtain rfl := Option.some.inj hname
  rw [slabGeometry_iff_alignedSize hpos hsize halignment hcache haligned hnewSlab]
  unfold LayoutFits
  split
  · rename_i hshort
    rw [← alignedSize_lt_iff hsize halignment, strcpyName, if_pos hshort]
    exact ⟨fun hfit => hfit.1,
      fun hfit => ⟨hfit, (alignedSize_cases hsize halignment).1⟩⟩
  · rename_i hlong
    rw [← le_clearByte_alignedSize_iff hpos hsize halignment, strcpyName, if_neg hlong]

/-- `size-256`, one of the caches `InitializeSizeCaches` creates. -/
def size256 : SlabCache where
  fullSlabList := .empty
  partialSlabList := .empty
  freeSlabList := .empty
  name := [115, 105, 122, 101, 45, 50, 53, 54]
  objSize := 256
  order := 0
  objectsPerSlab := 15
  objectsAllocated := 0

theorem smallCache_geometry_iff_size256 :
    SlabGeometry size256 256 0x100000 ↔ LayoutFits 8 256 0 :=
  smallCache_geometry_iff (Or.inl rfl)
    (show createCache [] 0x200000 (some [115, 105, 122, 101, 45, 50, 53, 54]) 256 0 =
      .ok (some (.small size256)) from rfl)
    (by decide) (by decide)

/-- `size-512`, created by the same loop, has its first object on top of the
slab header. -/
theorem size512_not_slabGeometry :
    ¬ ∀ (cacheList : List SlabCache) (buffer newSlab objectSize alignment : ℕ)
      (cacheName : Option (List UInt8)) (cache : SlabCache), IsAlignment alignment →
      createCache cacheList buffer cacheName objectSize alignment =
        .ok (some (.small cache)) →
      newSlab % pageSize = 0 → newSlab + 2 ^ (cache.order + pageShift) ≤ 2 ^ 32 →
      SlabGeometry cache objectSize newSlab := by
  intro hall
  have hgeometry := hall [] 0x200000 0x100000 512 0
    (some [115, 105, 122, 101, 45, 53, 49, 50])
    ⟨.empty, .empty, .empty, [115, 105, 122, 101, 45, 53, 49, 50], 512, 0, 8, 0⟩
    (Or.inl rfl) rfl (by decide) (by decide)
  have hroom := (slabGeometry_iff rfl (by decide) (by decide) (by decide) (by decide)
    (by decide)).mp hgeometry
  exact absurd hroom.2 (by decide)

end SmallCache

end GeexOS.SlabAllocator
