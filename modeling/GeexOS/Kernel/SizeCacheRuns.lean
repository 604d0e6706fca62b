import GeexOS.Kernel.SizeCaches
import GeexOS.Kernel.SlabEffects

/-!
# Runs of the size caches

Requests, frees and the callers' writes come in any order.  The caches share one region, and
their slabs lie in blocks of their own.
-/

namespace GeexOS.SlabAllocator

open GeexOS.Words
open GeexOS.Halting
open GeexOS.DataStructures
open CacheState

/-- The bytes of the header and the array of a small slab. -/
def managementSize (cache : SlabCache) : ℕ := sizeofSlab + 4 * cache.objectsPerSlab

/-- A caller writes to the `size` bytes from `address`.  Headers and arrays of small slabs
that lie there may be anything afterwards. -/
structure WritesInside (address size : ℕ) (sizes sizes' : SizeCaches) : Prop where
  pointers_eq : sizes'.pointers = sizes.pointers
  buddy_eq : sizes'.buddy = sizes.buddy
  words_eq : ∀ word, word + sizeofPointer ≤ address ∨ address + size ≤ word →
    sizes'.words word = sizes.words word
  caches : ∀ i, ∃ links slabs freeArrays, sizes'.caches i =
      { sizes.caches i with links := links, slabs := slabs, freeArrays := freeArrays } ∧
    ∀ slab, (i < 9 → sizeKind i = .small → slab ∈ (sizes.caches i).created →
        slab + managementSize (sizes.caches i).cache ≤ address ∨ address + size ≤ slab) →
      links slab = (sizes.caches i).links slab ∧ slabs slab = (sizes.caches i).slabs slab ∧
        freeArrays slab = (sizes.caches i).freeArrays slab

/-- The size caches in use: the objects handed out by each cache, and the sizes asked for by
the addresses that were returned. -/
structure SizeUse where
  sizes : SizeCaches
  live : ℕ → Finset ℕ
  requested : ℕ → ℕ

/-- A call that comes back, a write of a caller, or what others do with the region. -/
inductive SizeStep (admissible : ℕ → Prop) : SizeUse → SizeUse → Prop
  | allocate {sizes sizes' : SizeCaches} {live : ℕ → Finset ℕ} {requested : ℕ → ℕ}
      {size address : ℕ} (supply : Supply) (hsize : admissible size)
      (hserved : (sizeKind (sizeClass size)).Served supply (sizes.cacheAt (sizeClass size)))
      (hcall : sizes.allocateFromSizeSlabs supply size = .ok (address, sizes')) :
      SizeStep admissible ⟨sizes, live, requested⟩
        ⟨sizes', Function.update live (sizeClass size)
            (insert (sub32 address sizeofPointer) (live (sizeClass size))),
          Function.update requested address size⟩
  | free {sizes sizes' : SizeCaches} {live : ℕ → Finset ℕ} {requested : ℕ → ℕ}
      {i object : ℕ} (supply : Supply) (hi : i < 9) (hobject : object ∈ live i)
      (hcall : sizes.freeFromSizeSlabs supply (object + sizeofPointer) = .ok sizes') :
      SizeStep admissible ⟨sizes, live, requested⟩
        ⟨sizes', Function.update live i ((live i).erase object), requested⟩
  | write {sizes sizes' : SizeCaches} {live : ℕ → Finset ℕ} {requested : ℕ → ℕ}
      {i object : ℕ} (hi : i < 9) (hobject : object ∈ live i)
      (hwrite : WritesInside (object + sizeofPointer) (requested (object + sizeofPointer))
        sizes sizes') :
      SizeStep admissible ⟨sizes, live, requested⟩ ⟨sizes', live, requested⟩
  | releaseUnusedMemory {sizes : SizeCaches} {live : ℕ → Finset ℕ} {requested : ℕ → ℕ} {i : ℕ}
      {state' : CacheState} (supply : Supply) (hi : i < 9)
      (hcall : (sizeKind i).releaseUnusedMemory supply (sizes.cacheAt i) = .ok state') :
      SizeStep admissible ⟨sizes, live, requested⟩ ⟨sizes.setCache i state', live, requested⟩
  | elsewhere {sizes : SizeCaches} {live : ℕ → Finset ℕ} {requested : ℕ → ℕ}
      {buddy' : Buddy.BuddyState} (hstep : Buddy.BuddyStep Buddy.NoWrap sizes.buddy buddy')
      (hkept : ∀ i < 9, ∀ slab ∈ (sizes.cacheAt i).created,
        (sizeKind i).allocationOf (sizes.cacheAt i) slab ∈ buddy'.live) :
      SizeStep admissible ⟨sizes, live, requested⟩
        ⟨{ sizes with buddy := buddy' }, live, requested⟩

/-- The size caches as `InitializeSizeCaches` leaves them, without slabs. -/
structure Initialised (sizes : SizeCaches) : Prop where
  region : OnSlabRegion sizes.buddy
  caches : ∃ buffers : ℕ → ℕ, (∀ i, buffers i ≠ 0) ∧ (∀ i < 9, sizes.pointers i = buffers i) ∧
    initializeSizeCaches buffers = .ok ((List.range 9).map fun i => (sizes.caches i).cache)
  distinct : ∀ i < 9, ∀ j < 9, sizes.pointers i = sizes.pointers j → i = j
  table : ∀ i < 9, ∃ links, (sizes.caches i).hashTable = .new links
  created : ∀ i < 9, (sizes.caches i).created = ∅

variable {sizes : SizeCaches} {live : ℕ → Finset ℕ} {state' : CacheState}
variable {i j object other slab : ℕ}

theorem cacheAt_setCache_self (sizes : SizeCaches) (i : ℕ) (state : CacheState) :
    (sizes.setCache i state).cacheAt i = state := by
  simp only [SizeCaches.cacheAt, SizeCaches.setCache, Function.update_self]

theorem cacheAt_setCache_of_ne (sizes : SizeCaches) (state : CacheState) (hne : j ≠ i) :
    (sizes.setCache i state).cacheAt j = { sizes.cacheAt j with buddy := state.buddy } := by
  simp only [SizeCaches.cacheAt, SizeCaches.setCache, Function.update_of_ne hne]

/-! ## Caches that share a region -/

/-- The sizes of a cache are those that it was made with. -/
structure Shape (i : ℕ) (cache : SlabCache) : Prop where
  objSize_eq : cache.objSize = cacheSize i
  order_eq : cache.order = (sizeCache i).order
  objectsPerSlab_eq : cache.objectsPerSlab = (sizeCache i).objectsPerSlab

/-- Every cache is in order, its slabs lie in blocks of their own, and the objects of small
slabs lie behind what is kept in front of them. -/
structure Separate (sizes : SizeCaches) (live : ℕ → Finset ℕ) : Prop where
  cache : ∀ i < 9, CacheUse.Invariant (sizeKind i) ⟨sizes.cacheAt i, live i⟩
  shape : ∀ i < 9, Shape i (sizes.cacheAt i).cache
  header : ∀ i < 9, sizeKind i = .small → ∀ slab ∈ (sizes.cacheAt i).created,
    slab + managementSize (sizes.cacheAt i).cache ≤ ((sizes.cacheAt i).slabs slab).objectStart
  apart : ∀ i < 9, ∀ j < 9, i ≠ j → ∀ slab ∈ (sizes.cacheAt i).created,
    ∀ other ∈ (sizes.cacheAt j).created,
      (sizeKind i).allocationOf (sizes.cacheAt i) slab ≠
        (sizeKind j).allocationOf (sizes.cacheAt j) other

/-- A new slab of these caches keeps its objects behind the rest.  The objects of 512 bytes
fill the block. -/
theorem managementSize_add_le (hi : i < 9) (hsmall : sizeKind i = .small) (hne : i ≠ 4) :
    managementSize (sizeCache i) + cacheSize i * (sizeCache i).objectsPerSlab ≤ pageSize := by
  have hall : ∀ i < 9, sizeKind i = .small → i ≠ 4 →
      managementSize (sizeCache i) + cacheSize i * (sizeCache i).objectsPerSlab ≤ pageSize := by
    decide
  exact hall i hi hsmall hne

theorem Shape.managementSize_eq {cache : SlabCache} (hshape : Shape i cache) :
    managementSize cache = managementSize (sizeCache i) := by
  rw [managementSize, hshape.objectsPerSlab_eq]
  rfl

theorem CallEffect.shape {state : CacheState} {kind : CacheKind}
    (heffect : CallEffect kind state state') (hshape : Shape i state.cache) :
    Shape i state'.cache :=
  ⟨heffect.objSize_eq.trans hshape.objSize_eq, heffect.order_eq.trans hshape.order_eq,
    heffect.objectsPerSlab_eq.trans hshape.objectsPerSlab_eq⟩

theorem CallEffect.allocationOf_eq {state : CacheState} {kind : CacheKind}
    (heffect : CallEffect kind state state') (hslab : slab ∈ state.created)
    (hslab' : slab ∈ state'.created) :
    kind.allocationOf state' slab = kind.allocationOf state slab := by
  have hblock : kind.blockOf state' slab = kind.blockOf state slab := by
    cases kind with
    | small => rfl
    | large => exact heffect.objectStart_eq slab hslab hslab'
  rw [CacheKind.allocationOf, CacheKind.allocationOf, hblock, heffect.order_eq]

/-- The objects of a new slab end with its page. -/
theorem CallEffect.header {state : CacheState} (heffect : CallEffect .small state state')
    (hlayout : SmallLayout state) (hlayout' : SmallLayout state') (hshape : Shape i state.cache)
    (hroom : managementSize (sizeCache i) + cacheSize i * (sizeCache i).objectsPerSlab ≤
      pageSize ∨ state'.created ⊆ state.created)
    (hheader : ∀ slab ∈ state.created,
      slab + managementSize state.cache ≤ (state.slabs slab).objectStart)
    (hslab : slab ∈ state'.created) :
    slab + managementSize state'.cache ≤ (state'.slabs slab).objectStart := by
  have hsize : managementSize state'.cache = managementSize state.cache := by
    rw [(heffect.shape hshape).managementSize_eq, hshape.managementSize_eq]
  by_cases hold : slab ∈ state.created
  · rw [hsize, heffect.objectStart_eq slab hold hslab]
    exact hheader slab hold
  · obtain ⟨-, hstart⟩ := (heffect.created slab hslab).resolve_left hold
    have hend : slab + 2 ^ (state'.cache.order + pageShift) < 2 ^ 32 :=
      (hlayout'.layout.block_place hslab).2.2
    rw [hlayout'.order_eq] at hend
    have hfits := hroom.resolve_right fun hsubset => hold (hsubset hslab)
    rw [hstart rfl, hlayout.objectStart_eq hend, hsize, hshape.managementSize_eq,
      hshape.objSize_eq, hshape.objectsPerSlab_eq]
    omega

theorem Separate.layout (hseparate : Separate sizes live) (hi : i < 9) :
    Layout ((sizeKind i).blockOf (sizes.cacheAt i)) (sizes.cacheAt i) :=
  LayoutOk.layout (hseparate.cache i hi).1

theorem Separate.block_live (hseparate : Separate sizes live) (hi : i < 9)
    (hslab : slab ∈ (sizes.cacheAt i).created) :
    (sizeKind i).allocationOf (sizes.cacheAt i) slab ∈ sizes.buddy.live :=
  (hseparate.layout hi).block slab hslab

/-- A slab is in a block that is its own, also if it is new. -/
theorem Separate.apart_of_effect (hseparate : Separate sizes live) (hi : i < 9)
    (heffect : CallEffect (sizeKind i) (sizes.cacheAt i) state') (hj : j < 9) (hne : j ≠ i)
    (hslab : slab ∈ state'.created) (hother : other ∈ (sizes.cacheAt j).created) :
    (sizeKind i).allocationOf state' slab ≠
      (sizeKind j).allocationOf (sizes.cacheAt j) other := by
  rcases heffect.created slab hslab with hold | ⟨hfresh, -⟩
  · rw [heffect.allocationOf_eq hold hslab]
    exact hseparate.apart i hi j hj hne.symm slab hold other hother
  · exact fun heq => hfresh (heq ▸ hseparate.block_live hj hother)

/-- The other caches keep their blocks. -/
theorem Separate.others_of_effect (hseparate : Separate sizes live) (hi : i < 9)
    (heffect : CallEffect (sizeKind i) (sizes.cacheAt i) state')
    (hregion : ∃ cells, RegionOk state'.buddy cells) (hj : j < 9) (hne : j ≠ i) :
    CacheUse.Invariant (sizeKind j)
      ⟨{ sizes.cacheAt j with buddy := state'.buddy }, live j⟩ := by
  obtain ⟨hlayout, lists, chains, hold⟩ := hseparate.cache j hj
  refine ⟨layoutOk_setBuddy hlayout hregion fun other hother => ?_, lists, chains,
    hold.congr_outside state'.buddy _⟩
  exact heffect.kept _ (hseparate.block_live hj hother) fun slab hslab =>
    hseparate.apart j hj i hi hne other hother slab hslab

/-- A call changes its own cache, and leaves the blocks of the others alone. -/
theorem Separate.setCache (hseparate : Separate sizes live) (hi : i < 9) {live' : Finset ℕ}
    (hcache : CacheUse.Invariant (sizeKind i) ⟨state', live'⟩)
    (heffect : CallEffect (sizeKind i) (sizes.cacheAt i) state')
    (hroomy : i ≠ 4 ∨ state'.created ⊆ (sizes.cacheAt i).created) :
    Separate (sizes.setCache i state') (Function.update live i live') := by
  have hregion := (LayoutOk.layout hcache.1).region
  have hshape := heffect.shape (hseparate.shape i hi)
  refine ⟨fun j hj => ?_, fun j hj => ?_, fun j hj hsmall slab hslab => ?_,
    fun j hj k hk hne slab hslab other' hother' => ?_⟩
  · by_cases hji : j = i
    · subst hji
      rw [cacheAt_setCache_self, Function.update_self]
      exact hcache
    · rw [cacheAt_setCache_of_ne sizes state' hji, Function.update_of_ne hji]
      exact hseparate.others_of_effect hi heffect hregion hj hji
  · by_cases hji : j = i
    · subst hji
      rw [cacheAt_setCache_self]
      exact hshape
    · rw [cacheAt_setCache_of_ne sizes state' hji]
      exact hseparate.shape j hj
  · by_cases hji : j = i
    · subst hji
      rw [cacheAt_setCache_self] at hslab ⊢
      have hlayout := (hseparate.cache j hi).1
      have hlayout' := hcache.1
      have hheader := hseparate.header j hi hsmall
      rw [hsmall] at hlayout hlayout' heffect
      exact heffect.header hlayout hlayout' (hseparate.shape j hi)
        (hroomy.imp_left (managementSize_add_le hi hsmall)) hheader hslab
    · rw [cacheAt_setCache_of_ne sizes state' hji] at hslab ⊢
      exact hseparate.header j hj hsmall slab hslab
  · by_cases hji : j = i
    · subst hji
      rw [cacheAt_setCache_self] at hslab ⊢
      rw [cacheAt_setCache_of_ne sizes state' hne.symm] at hother' ⊢
      exact hseparate.apart_of_effect hi heffect hk hne.symm hslab hother'
    · rw [cacheAt_setCache_of_ne sizes state' hji] at hslab ⊢
      by_cases hki : k = i
      · subst hki
        rw [cacheAt_setCache_self] at hother' ⊢
        exact (hseparate.apart_of_effect hi heffect hj hji hother' hslab).symm
      · rw [cacheAt_setCache_of_ne sizes state' hki] at hother' ⊢
        exact hseparate.apart j hj k hk hne slab hslab other' hother'

/-! ## Live objects -/

/-- A live object lies in the block of a slab of its cache. -/
theorem Separate.object_inside (hseparate : Separate sizes live) (hi : i < 9)
    (hobject : object ∈ live i) :
    ∃ slab ∈ (sizes.cacheAt i).created, ((sizes.cacheAt i).slabs slab).objectStart ≤ object ∧
      (sizeKind i).blockOf (sizes.cacheAt i) slab ≤ object ∧
        object + cacheSize i ≤ (sizeKind i).blockOf (sizes.cacheAt i) slab +
          2 ^ ((sizes.cacheAt i).cache.order + pageShift) := by
  obtain ⟨-, lists, chains, hcache⟩ := hseparate.cache i hi
  obtain ⟨slab, hslab, slot, hslot, -, rfl⟩ := (hcache.slots.live object).mp hobject
  obtain ⟨hlow, hhigh⟩ := (hseparate.layout hi).inside slab hslab
  have hend := slot_add_le (sizes.cacheAt i) slab hslot
  have hstart : ((sizes.cacheAt i).slabs slab).objectStart ≤
      SlabAllocator.slot (sizes.cacheAt i) slab slot := Nat.le_add_right _ _
  rw [← (hseparate.shape i hi).objSize_eq]
  exact ⟨slab, hslab, hstart, hlow.trans hstart, hend.trans hhigh⟩

theorem Separate.object_lt (hseparate : Separate sizes live) (hi : i < 9)
    (hobject : object ∈ live i) : object + cacheSize i < 2 ^ 32 := by
  obtain ⟨slab, hslab, -, -, hend⟩ := hseparate.object_inside hi hobject
  exact hend.trans_lt ((hseparate.layout hi).block_place hslab).2.2

/-- Slabs with different blocks do not overlap. -/
theorem Separate.blocks_apart (hseparate : Separate sizes live) (hi : i < 9) (hj : j < 9)
    (hslab : slab ∈ (sizes.cacheAt i).created) (hother : other ∈ (sizes.cacheAt j).created)
    (hne : i ≠ j ∨ slab ≠ other) :
    (sizeKind i).blockOf (sizes.cacheAt i) slab +
        2 ^ ((sizes.cacheAt i).cache.order + pageShift) ≤
          (sizeKind j).blockOf (sizes.cacheAt j) other ∨
      (sizeKind j).blockOf (sizes.cacheAt j) other +
        2 ^ ((sizes.cacheAt j).cache.order + pageShift) ≤
          (sizeKind i).blockOf (sizes.cacheAt i) slab := by
  obtain ⟨cells, hregion⟩ := (hseparate.layout hi).region
  have hdiffer : (sizeKind i).allocationOf (sizes.cacheAt i) slab ≠
      (sizeKind j).allocationOf (sizes.cacheAt j) other := by
    by_cases hij : i = j
    · subst hij
      intro heq
      exact hne.resolve_left (fun hdiffer => hdiffer rfl) ((hseparate.layout hi).distinct slab
        hslab other hother (congrArg Buddy.Allocation.address heq))
    · exact hseparate.apart i hi j hj hij slab hslab other hother
  have hapart := RegionOk.live_apart hregion (hseparate.block_live hi hslab)
    (hseparate.block_live hj hother) hdiffer
  simpa only [CacheKind.allocationOf] using hapart

/-- Two live objects do not overlap. -/
theorem Separate.objects_apart (hseparate : Separate sizes live) (hi : i < 9) (hj : j < 9)
    (hobject : object ∈ live i) (hother : other ∈ live j) (hne : i ≠ j ∨ object ≠ other) :
    object + cacheSize i ≤ other ∨ other + cacheSize j ≤ object := by
  by_cases hij : i = j
  · subst hij
    obtain ⟨lists, chains, hconsistent⟩ := (hseparate.cache i hi).consistent
    rw [← (hseparate.shape i hi).objSize_eq]
    exact hconsistent.apart object hobject other hother
      (hne.resolve_left fun hdiffer => hdiffer rfl)
  · obtain ⟨slab, hslab, -, hlow, hhigh⟩ := hseparate.object_inside hi hobject
    obtain ⟨slab', hslab', -, hlow', hhigh'⟩ := hseparate.object_inside hj hother
    have hapart := hseparate.blocks_apart hi hj hslab hslab' (Or.inl hij)
    omega

/-- A live object does not overlap the header and the array of a slab. -/
theorem Separate.management_apart (hseparate : Separate sizes live) (hi : i < 9) (hj : j < 9)
    (hsmall : sizeKind j = .small) (hslab : slab ∈ (sizes.cacheAt j).created)
    (hobject : object ∈ live i) :
    slab + managementSize (sizes.cacheAt j).cache ≤ object ∨ object + cacheSize i ≤ slab := by
  obtain ⟨home, hhome, hstart, hlow, hhigh⟩ := hseparate.object_inside hi hobject
  have hheader := hseparate.header j hj hsmall slab hslab
  have hinside := ((hseparate.layout hj).inside slab hslab).2
  by_cases hsame : i = j ∧ home = slab
  · obtain ⟨rfl, rfl⟩ := hsame
    exact Or.inl (hheader.trans hstart)
  · have hapart := hseparate.blocks_apart hi hj hhome hslab (not_and_or.mp hsame)
    have hblock : (sizeKind j).blockOf (sizes.cacheAt j) slab = slab := by
      rw [hsmall]
      rfl
    rw [hblock] at hapart hinside
    omega

theorem sizeofPointer_le (hi : i < 9) : sizeofPointer ≤ cacheSize i := by
  have hall : ∀ i < 9, sizeofPointer ≤ cacheSize i := by decide
  exact hall i hi

theorem cacheSize_pos (hi : i < 9) : 0 < cacheSize i :=
  (Nat.succ_pos 3).trans_le (sizeofPointer_le hi)

/-- A live object is not the header of a slab. -/
theorem Separate.not_header (hseparate : Separate sizes live) (hi : i < 9) (hj : j < 9)
    (hobject : object ∈ live i) :
    ¬ (sizeKind j = .small ∧ object ∈ (sizes.caches j).created) := by
  rintro ⟨hsmall, hslab⟩
  have hpos := cacheSize_pos hi
  have hapart := hseparate.management_apart hi hj hsmall hslab hobject
  rw [managementSize, sizeofSlab] at hapart
  omega

theorem Separate.loadPointer_eq (hseparate : Separate sizes live) (hi : i < 9)
    (hobject : object ∈ live i) : sizes.loadPointer object = sizes.words object := by
  have hnone : (List.range 9).find? (fun j => sizeKind j = .small ∧
      object ∈ (sizes.caches j).created) = none := by
    rw [List.find?_eq_none]
    intro j hj hheader
    exact hseparate.not_header hi (List.mem_range.mp hj) hobject (of_decide_eq_true hheader)
  rw [SizeCaches.loadPointer, hnone]

theorem Separate.object_ne_zero (hseparate : Separate sizes live) (hi : i < 9)
    (hobject : object ∈ live i) : object ≠ 0 := by
  obtain ⟨slab, hslab, -, hlow, -⟩ := hseparate.object_inside hi hobject
  exact ((hseparate.layout hi).block_place hslab).1.trans_le hlow |>.ne'

/-- The pointer is all that is stored. -/
theorem Separate.storePointer_eq (hseparate : Separate sizes live) (hi : i < 9)
    (hobject : object ∈ live i) : sizes.storePointer i object =
      .ok { sizes with words := Function.update sizes.words object (sizes.pointers i) } := by
  have hsame : Function.update sizes.caches i { sizes.caches i with
      links := (sizes.caches i).links } = sizes.caches := Function.update_eq_self i sizes.caches
  simp only [SizeCaches.storePointer, if_neg (hseparate.object_ne_zero hi hobject),
    if_neg (hseparate.not_header hi hi hobject), hsame]

end GeexOS.SlabAllocator
