import GeexOS.Kernel.SizeCacheRuns

/-!
# Room for requests

The pointer to the cache is added to a request in 32 bits, and it is lost when the caller's
memory is also the header of a slab.  Without these two kinds of requests every caller gets
its room, and every object goes back to the cache that it came from.
-/

namespace GeexOS.SlabAllocator

open GeexOS.Words
open GeexOS.Halting
open GeexOS.DataStructures
open CacheState

variable {sizes sizes' : SizeCaches} {i object slab address size : ℕ} {state' : CacheState}
variable {supply : Supply} {use use' : SizeUse} {live : ℕ → Finset ℕ}

/-! ## Requests -/

/-- A request whose sum with the size of a pointer does not wrap, and which is not for
objects of 512 bytes. -/
def Roomy (size : ℕ) : Prop :=
  size + sizeofPointer < 2 ^ 32 ∧ ¬ (256 < size + sizeofPointer ∧ size + sizeofPointer ≤ 512)

instance (size : ℕ) : Decidable (Roomy size) := inferInstanceAs (Decidable (_ ∧ ¬ _))

theorem Roomy.sizeClass_ne (hsize : Roomy size) : sizeClass size ≠ 4 := by
  intro hclass
  have hspec := sizeClass_spec hsize.1
  rw [hclass] at hspec
  obtain ⟨-, hholds, hbefore⟩ := hspec.resolve_left (by decide)
  exact hsize.2 ⟨hbefore 3 (by decide), hholds⟩

/-- The selected cache holds the request, and no smaller one does. -/
theorem Roomy.holds (hsize : Roomy size) (hclass : sizeClass size < 9) :
    size + sizeofPointer ≤ cacheSize (sizeClass size) ∧
      ∀ j < sizeClass size, cacheSize j < size + sizeofPointer :=
  ((sizeClass_spec hsize.1).resolve_left (cacheSize_pos hclass).ne').2

theorem mem_update_insert (live : ℕ → Finset ℕ) (i object : ℕ) :
    object ∈ Function.update live i (insert object (live i)) i := by
  rw [Function.update_self]
  exact Finset.mem_insert_self _ _

/-- A cache that has a slot, or can get one, hands it out. -/
theorem Separate.allocateObject (hseparate : Separate sizes live) (hi : i < 9) (hne : i ≠ 4)
    (hserved : (sizeKind i).Served supply (sizes.cacheAt i))
    (hgrowable : Growable (sizes.cacheAt i)) :
    ∃ object state', (sizeKind i).allocateObject supply (sizes.cacheAt i) =
        .ok (object, state') ∧ object ∉ live i ∧
      Separate (sizes.setCache i state') (Function.update live i (insert object (live i))) := by
  obtain ⟨hlayout, lists, chains, hcache⟩ := hseparate.cache i hi
  obtain ⟨object, state', lists', chains', hcall, hlayout', hfresh, hcache'⟩ :=
    allocateObject_returns hlayout hcache hgrowable hserved
  have hobject : object ≠ 0 := by
    obtain ⟨slab, hslab, slot, -, -, heq⟩ :=
      (hcache'.slots.live object).mp (Finset.mem_insert_self object (live i))
    have hstart := (hcache'.slots.slab slab hslab).start_pos
    rw [heq, SlabAllocator.slot]
    omega
  have heffect := (allocateObject_effect hlayout hserved hcall hobject).1
  exact ⟨object, state', hcall, hfresh,
    hseparate.setCache hi ⟨hlayout', lists', chains', hcache'⟩ heffect (Or.inl hne)⟩

/-- What holds between the calls. -/
structure SizeUse.Invariant (use : SizeUse) : Prop where
  separate : Separate use.sizes use.live
  pointers_ne : ∀ i < 9, use.sizes.pointers i ≠ 0
  distinct : ∀ i < 9, ∀ j < 9, use.sizes.pointers i = use.sizes.pointers j → i = j
  pointer : ∀ i < 9, ∀ object ∈ use.live i, use.sizes.words object = use.sizes.pointers i
  requested : ∀ i < 9, ∀ object ∈ use.live i,
    use.requested (object + sizeofPointer) + sizeofPointer ≤ cacheSize i

/-- A request that was served: the cache has handed out an object that nobody had, and a
pointer to the cache lies in it. -/
structure HandedOut (use : SizeUse) (i object : ℕ) (state' : CacheState) (sizes' : SizeCaches) :
    Prop where
  fresh : object ∉ use.live i
  sizes_eq : sizes' = { use.sizes.setCache i state' with
    words := Function.update use.sizes.words object (use.sizes.pointers i) }
  separate : Separate (use.sizes.setCache i state')
    (Function.update use.live i (insert object (use.live i)))

/-- A request for which there is a cache that can hand out an object is served. -/
theorem SizeUse.Invariant.serves (huse : use.Invariant) (hroomy : Roomy size)
    (hclass : sizeClass size < 9)
    (hserved : (sizeKind (sizeClass size)).Served supply (use.sizes.cacheAt (sizeClass size)))
    (hgrowable : Growable (use.sizes.cacheAt (sizeClass size))) :
    ∃ object state' sizes', use.sizes.allocateFromSizeSlabs supply size =
        .ok (object + sizeofPointer, sizes') ∧ object + sizeofPointer < 2 ^ 32 ∧
      HandedOut use (sizeClass size) object state' sizes' := by
  obtain ⟨object, state', hcall, hfresh, hseparate⟩ :=
    huse.separate.allocateObject hclass hroomy.sizeClass_ne hserved hgrowable
  have hobject := mem_update_insert use.live (sizeClass size) object
  have hlt := hseparate.object_lt hclass hobject
  have hsize := sizeofPointer_le hclass
  have hreturned : object + sizeofPointer < 2 ^ 32 := by omega
  refine ⟨object, state', _, ?_, hreturned, hfresh, rfl, hseparate⟩
  have hcaches : ¬ (cacheSize (sizeClass size) = 0 ∨ use.sizes.pointers (sizeClass size) = 0) :=
    not_or.mpr ⟨(cacheSize_pos hclass).ne', huse.pointers_ne _ hclass⟩
  simp only [SizeCaches.allocateFromSizeSlabs, if_neg hcaches, hcall, ok_bind,
    hseparate.storePointer_eq hclass hobject, u32_of_lt hreturned]
  rfl

/-- What came back was served. -/
theorem SizeUse.Invariant.served (huse : use.Invariant) (hroomy : Roomy size)
    (hserved : (sizeKind (sizeClass size)).Served supply (use.sizes.cacheAt (sizeClass size)))
    (hcall : use.sizes.allocateFromSizeSlabs supply size = .ok (address, sizes')) :
    sizeClass size < 9 ∧ ∃ object state', address = object + sizeofPointer ∧
      sub32 address sizeofPointer = object ∧
        HandedOut use (sizeClass size) object state' sizes' := by
  have hcall' := hcall
  rw [SizeCaches.allocateFromSizeSlabs] at hcall'
  split at hcall'
  · cases hcall'
  · rename_i hcaches
    obtain ⟨hclass, -, -⟩ :=
      (sizeClass_spec hroomy.1).resolve_left fun hzero => hcaches (Or.inl hzero)
    obtain ⟨⟨object, state⟩, hobject, hcall'⟩ := bind_eq_ok.mp hcall'
    obtain ⟨stored, hstore, -⟩ := bind_eq_ok.mp hcall'
    have hne : object ≠ 0 := by
      rintro rfl
      cases hstore
    have hgrowable :=
      (allocateObject_effect (huse.separate.cache _ hclass).1 hserved hobject hne).2
    obtain ⟨object', state', sizes'', hreturns, hlt, hgiven⟩ :=
      huse.serves hroomy hclass hserved hgrowable
    obtain ⟨rfl, rfl⟩ := Prod.mk.inj (Except.ok.inj (hreturns.symm.trans hcall))
    refine ⟨hclass, object', state', rfl, ?_, hgiven⟩
    rw [sub32_of_le hlt (Nat.le_add_left _ _), Nat.add_sub_cancel]

theorem SizeUse.Invariant.allocate (huse : use.Invariant) (hi : i < 9) {state' : CacheState}
    (hgiven : HandedOut use i object state' sizes') (hsize : size + sizeofPointer ≤ cacheSize i) :
    SizeUse.Invariant ⟨sizes', Function.update use.live i (insert object (use.live i)),
      Function.update use.requested (object + sizeofPointer) size⟩ := by
  obtain ⟨hfresh, rfl, hseparate⟩ := hgiven
  have hmem : ∀ j < 9, ∀ other ∈ Function.update use.live i (insert object (use.live i)) j,
      (j = i ∧ other = object) ∨ (other ∈ use.live j ∧ other ≠ object) := by
    intro j hj other hother
    by_cases hji : j = i
    · subst hji
      rw [Function.update_self] at hother
      by_cases heq : other = object
      · exact Or.inl ⟨rfl, heq⟩
      · exact Or.inr ⟨Finset.mem_of_mem_insert_of_ne hother heq, heq⟩
    · have hobject := mem_update_insert use.live i object
      have hapart := hseparate.objects_apart hj hi hother hobject (Or.inl hji)
      have hpos := cacheSize_pos hj
      have hpos' := cacheSize_pos hi
      rw [Function.update_of_ne hji] at hother
      exact Or.inr ⟨hother, by omega⟩
  refine ⟨⟨hseparate.cache, hseparate.shape, hseparate.header, hseparate.apart⟩,
    huse.pointers_ne, huse.distinct, fun j hj other hother => ?_, fun j hj other hother => ?_⟩
  · rcases hmem j hj other hother with ⟨rfl, rfl⟩ | ⟨hold, hne⟩
    · exact Function.update_self ..
    · simp only [Function.update_of_ne hne]
      exact huse.pointer j hj other hold
  · rcases hmem j hj other hother with ⟨rfl, rfl⟩ | ⟨hold, hne⟩
    · simp only [Function.update_self]
      exact hsize
    · have hne' : other + sizeofPointer ≠ object + sizeofPointer :=
        fun heq => hne (Nat.add_right_cancel heq)
      simp only [Function.update_of_ne hne']
      exact huse.requested j hj other hold

/-! ## Frees -/

/-- A call that hands nothing out. -/
theorem SizeUse.Invariant.setCache (huse : use.Invariant) {live' : Finset ℕ}
    (hseparate : Separate (use.sizes.setCache i state') (Function.update use.live i live'))
    (hlive : live' ⊆ use.live i) :
    SizeUse.Invariant ⟨use.sizes.setCache i state', Function.update use.live i live',
      use.requested⟩ := by
  have hmem : ∀ j, ∀ object ∈ Function.update use.live i live' j, object ∈ use.live j := by
    intro j object hobject
    by_cases hji : j = i
    · subst hji
      rw [Function.update_self] at hobject
      exact hlive hobject
    · rwa [Function.update_of_ne hji] at hobject
  exact ⟨hseparate, huse.pointers_ne, huse.distinct,
    fun j hj object hobject => huse.pointer j hj object (hmem j object hobject),
    fun j hj object hobject => huse.requested j hj object (hmem j object hobject)⟩

/-- The pointer leads back to the cache. -/
theorem SizeUse.Invariant.find_pointer (huse : use.Invariant) (hi : i < 9)
    (hobject : object ∈ use.live i) :
    (List.range 9).find? (fun j => use.sizes.pointers j = use.sizes.loadPointer object) =
      some i := by
  rw [huse.separate.loadPointer_eq hi hobject, huse.pointer i hi object hobject,
    List.find?_range_eq_some]
  refine ⟨decide_eq_true rfl, List.mem_range.mpr hi, fun j hj => ?_⟩
  rw [Bool.not_eq_true', decide_eq_false_iff_not]
  exact fun heq => hj.ne (huse.distinct j (hj.trans hi) i hi heq)

/-- An object is given back to the cache that it came from. -/
theorem SizeUse.Invariant.frees (huse : use.Invariant) (hi : i < 9)
    (hobject : object ∈ use.live i) (supply : Supply) :
    ∃ state', use.sizes.freeFromSizeSlabs supply (object + sizeofPointer) =
        .ok (use.sizes.setCache i state') ∧
      SizeUse.Invariant ⟨use.sizes.setCache i state',
        Function.update use.live i ((use.live i).erase object), use.requested⟩ := by
  obtain ⟨hlayout, lists, chains, hcache⟩ := huse.separate.cache i hi
  obtain ⟨state', lists', chains', hcall, hlayout', hcache'⟩ :=
    freeObject_returns hlayout hcache hobject supply
  obtain ⟨heffect, -, hcreated⟩ := freeObject_effect hcall
  have hseparate := huse.separate.setCache hi ⟨hlayout', lists', chains', hcache'⟩ heffect
    (Or.inr hcreated.subset)
  have hlt := huse.separate.object_lt hi hobject
  have hsize := huse.requested i hi object hobject
  have hback : sub32 (object + sizeofPointer) sizeofPointer = object := by
    rw [sub32_of_le (by omega) (Nat.le_add_left _ _), Nat.add_sub_cancel]
  refine ⟨state', ?_, huse.setCache hseparate (Finset.erase_subset _ _)⟩
  simp only [SizeCaches.freeFromSizeSlabs, hback, huse.find_pointer hi hobject, hcall, ok_bind]

/-! ## Writes of the callers -/

/-- A write to the memory behind a pointer changes no cache. -/
theorem SizeUse.Invariant.caches_of_write (huse : use.Invariant) (hi : i < 9)
    (hobject : object ∈ use.live i)
    (hwrite : WritesInside (object + sizeofPointer) (use.requested (object + sizeofPointer))
      use.sizes sizes') : sizes'.caches = use.sizes.caches := by
  have hsize := huse.requested i hi object hobject
  funext j
  obtain ⟨links, slabs, freeArrays, heq, hkept⟩ := hwrite.caches j
  have hall : ∀ slab, links slab = (use.sizes.caches j).links slab ∧
      slabs slab = (use.sizes.caches j).slabs slab ∧
        freeArrays slab = (use.sizes.caches j).freeArrays slab := by
    refine fun slab => hkept slab fun hj hsmall hslab => ?_
    have hapart := huse.separate.management_apart hi hj hsmall hslab hobject
    simp only [SizeCaches.cacheAt] at hapart
    omega
  rw [heq, funext fun slab => (hall slab).1, funext fun slab => (hall slab).2.1,
    funext fun slab => (hall slab).2.2]

theorem SizeUse.Invariant.write (huse : use.Invariant) (hi : i < 9)
    (hobject : object ∈ use.live i)
    (hwrite : WritesInside (object + sizeofPointer) (use.requested (object + sizeofPointer))
      use.sizes sizes') : SizeUse.Invariant ⟨sizes', use.live, use.requested⟩ := by
  have hcaches := huse.caches_of_write hi hobject hwrite
  have hsize := huse.requested i hi object hobject
  have hwords : ∀ j < 9, ∀ other ∈ use.live j,
      sizes'.words other = use.sizes.words other := by
    intro j hj other hother
    refine hwrite.words_eq other ?_
    by_cases hsame : i = j ∧ object = other
    · obtain ⟨rfl, rfl⟩ := hsame
      exact Or.inl le_rfl
    · have hapart := huse.separate.objects_apart hi hj hobject hother (not_and_or.mp hsame)
      have hpos : sizeofPointer ≤ cacheSize j := sizeofPointer_le hj
      omega
  obtain ⟨pointers, caches, buddy, words⟩ := sizes'
  obtain rfl : pointers = use.sizes.pointers := hwrite.pointers_eq
  obtain rfl : buddy = use.sizes.buddy := hwrite.buddy_eq
  obtain rfl : caches = use.sizes.caches := hcaches
  have hseparate := huse.separate
  refine ⟨⟨hseparate.cache, hseparate.shape, hseparate.header, hseparate.apart⟩,
    huse.pointers_ne, huse.distinct, fun j hj other hother => ?_, huse.requested⟩
  rw [← huse.pointer j hj other hother]
  exact hwords j hj other hother

/-! ## The run -/

theorem SizeUse.Invariant.releaseUnusedMemory (huse : use.Invariant) (hi : i < 9)
    (hcall : (sizeKind i).releaseUnusedMemory supply (use.sizes.cacheAt i) = .ok state') :
    SizeUse.Invariant ⟨use.sizes.setCache i state', use.live, use.requested⟩ := by
  obtain ⟨hlayout, lists, chains, hcache⟩ := huse.separate.cache i hi
  obtain ⟨after, lists', hreturns, hlayout', hcache'⟩ :=
    releaseUnusedMemory_returns hlayout hcache supply
  obtain rfl := Except.ok.inj (hreturns.symm.trans hcall)
  have hshrinks := releaseUnusedMemory_shrinks hlayout hcache hcall
  have hseparate := huse.separate.setCache hi ⟨hlayout', lists', chains, hcache'⟩
    hshrinks.callEffect (Or.inr hshrinks.created)
  have hkept := huse.setCache hseparate (Finset.Subset.refl _)
  rwa [Function.update_eq_self] at hkept

/-- Others leave the blocks of the caches alone. -/
theorem SizeUse.Invariant.elsewhere (huse : use.Invariant) {buddy' : Buddy.BuddyState}
    (hstep : Buddy.BuddyStep Buddy.NoWrap use.sizes.buddy buddy')
    (hkept : ∀ i < 9, ∀ slab ∈ (use.sizes.cacheAt i).created,
      (sizeKind i).allocationOf (use.sizes.cacheAt i) slab ∈ buddy'.live) :
    SizeUse.Invariant ⟨{ use.sizes with buddy := buddy' }, use.live, use.requested⟩ := by
  have hseparate := huse.separate
  refine ⟨⟨fun i hi => ?_, hseparate.shape, hseparate.header, hseparate.apart⟩,
    huse.pointers_ne, huse.distinct, huse.pointer, huse.requested⟩
  obtain ⟨hlayout, lists, chains, hcache⟩ := hseparate.cache i hi
  exact ⟨layoutOk_elsewhere hlayout hstep (hkept i hi), lists, chains,
    hcache.congr_outside buddy' _⟩

theorem SizeStep.invariant (hstep : SizeStep Roomy use use') (huse : use.Invariant) :
    use'.Invariant := by
  cases hstep with
  | allocate supply hsize hserved hcall =>
      obtain ⟨hclass, object, state', rfl, hback, hgiven⟩ := huse.served hsize hserved hcall
      rw [hback]
      exact huse.allocate hclass hgiven (hsize.holds hclass).1
  | free supply hi hobject hcall =>
      obtain ⟨state', hreturns, hfreed⟩ := huse.frees hi hobject supply
      obtain rfl := Except.ok.inj (hreturns.symm.trans hcall)
      exact hfreed
  | write hi hobject hwrite => exact huse.write hi hobject hwrite
  | releaseUnusedMemory supply hi hcall => exact huse.releaseUnusedMemory hi hcall
  | elsewhere hstep hkept => exact huse.elsewhere hstep hkept

theorem SizeUse.Invariant.run (huse : use.Invariant)
    (hrun : Relation.ReflTransGen (SizeStep Roomy) use use') : use'.Invariant := by
  induction hrun with
  | refl => exact huse
  | tail _ hstep ih => exact hstep.invariant ih

/-! ## The caches as they are made -/

theorem Initialised.cache_eq (hinitial : Initialised sizes) (hi : i < 9) :
    (sizes.caches i).cache = sizeCache i := by
  obtain ⟨buffers, hbuffers, -, hmade⟩ := hinitial.caches
  have hlist := Except.ok.inj ((initializeSizeCaches_eq hbuffers).symm.trans hmade)
  exact (List.map_inj_left.mp hlist i (List.mem_range.mpr hi)).symm

/-- Every size cache is sound when it is new. -/
theorem Initialised.fresh (hinitial : Initialised sizes) (hi : i < 9) :
    Fresh (sizeKind i) (sizes.cacheAt i) := by
  have hsizes : ∀ i < 9, (sizeCache i).order ≤ slabMaxOrder ∧
      (sizeKind i = .small → (sizeCache i).order = 0) ∧
        (sizeCache i).objSize * (sizeCache i).objectsPerSlab ≤
          2 ^ ((sizeCache i).order + pageShift) ∧
        0 < (sizeCache i).objSize ∧ 0 < (sizeCache i).objectsPerSlab := by
    decide
  have hcache : (sizes.cacheAt i).cache = sizeCache i := hinitial.cache_eq hi
  obtain ⟨horder, hsmall, hroom, hsize, hobjects⟩ := hsizes i hi
  rw [← hcache] at horder hsmall hroom hsize hobjects
  refine ⟨hinitial.region.regionOk, horder, hsmall, hroom, hsize, hobjects, fun which => ?_, ?_,
    hinitial.table i hi, hinitial.created i hi⟩
  · cases which <;> simp only [list, hcache] <;> rfl
  · rw [hcache]
    rfl

theorem Initialised.invariant (hinitial : Initialised sizes) (requested : ℕ → ℕ) :
    SizeUse.Invariant ⟨sizes, fun _ => ∅, requested⟩ := by
  have hnone : ∀ i < 9, ∀ slab, slab ∉ (sizes.cacheAt i).created := by
    intro i hi slab hslab
    rw [SizeCaches.cacheAt, hinitial.created i hi] at hslab
    exact Finset.notMem_empty slab hslab
  refine ⟨⟨fun i hi => (hinitial.fresh hi).invariant, fun i hi => ?_,
    fun i hi _ slab hslab => absurd hslab (hnone i hi slab),
    fun i hi j hj _ slab hslab => absurd hslab (hnone i hi slab)⟩, fun i hi => ?_,
    hinitial.distinct, fun i hi object hobject => absurd hobject (Finset.notMem_empty object),
    fun i hi object hobject => absurd hobject (Finset.notMem_empty object)⟩
  · have hcache : (sizes.cacheAt i).cache = sizeCache i := hinitial.cache_eq hi
    rw [hcache]
    exact ⟨rfl, rfl, rfl⟩
  · obtain ⟨buffers, hbuffers, hpointers, -⟩ := hinitial.caches
    exact hpointers i hi ▸ hbuffers i

/-! ## Room for every request -/

/-- What a caller relies on: `size` bytes in an object that nobody had, behind a pointer to
its cache, and no smaller cache would do. -/
def GotRoom (use : SizeUse) (size address : ℕ) (sizes' : SizeCaches) : Prop :=
  ∃ i < 9, ∃ object ∉ use.live i, address = object + sizeofPointer ∧
    address + size ≤ object + (sizes'.caches i).cache.objSize ∧
    sizes'.loadPointer object = sizes'.pointers i ∧
    (∀ j < 9, size + sizeofPointer ≤ (sizes'.caches j).cache.objSize →
      (sizes'.caches i).cache.objSize ≤ (sizes'.caches j).cache.objSize) ∧
    (∀ j, j ≠ i → sizes'.caches j = use.sizes.caches j) ∧
    ∃ lists chains, Consistent (sizeKind i) (sizes'.cacheAt i) (insert object (use.live i))
      lists chains

/-- A request stops if no cache is for it or its cache cannot grow, and gets room otherwise. -/
def RequestOk (use : SizeUse) (size : ℕ) : Prop :=
  ∀ supply, (sizeKind (sizeClass size)).Served supply (use.sizes.cacheAt (sizeClass size)) →
    use.sizes.allocateFromSizeSlabs supply size = .error (noSuitableCache size) ∨
      (¬ Growable (use.sizes.cacheAt (sizeClass size)) ∧
        ∃ halt, use.sizes.allocateFromSizeSlabs supply size = .error halt) ∨
      ∃ address sizes', use.sizes.allocateFromSizeSlabs supply size = .ok (address, sizes') ∧
        GotRoom use size address sizes'

/-- Every object can be given back, and goes to the cache that it came from. -/
def FreeOk (use : SizeUse) : Prop :=
  ∀ i < 9, ∀ object ∈ use.live i, ∀ supply, ∃ sizes',
    use.sizes.freeFromSizeSlabs supply (object + sizeofPointer) = .ok sizes' ∧
      (∀ j, j ≠ i → sizes'.caches j = use.sizes.caches j) ∧
      ∃ lists chains, Consistent (sizeKind i) (sizes'.cacheAt i) ((use.live i).erase object)
        lists chains

theorem cacheSize_le (hi : i < 9) (hj : j < 9) (hbefore : ∀ k < i, cacheSize k < size)
    (hholds : size ≤ cacheSize j) : cacheSize i ≤ cacheSize j := by
  have hordered : ∀ i < 9, ∀ j < 9, i ≤ j → cacheSize i ≤ cacheSize j := by decide
  refine hordered i hi j hj ?_
  by_contra hlt
  exact absurd hholds (not_le.mpr (hbefore j (not_le.mp hlt)))

theorem SizeUse.Invariant.gotRoom (huse : use.Invariant) (hsize : Roomy size)
    (hclass : sizeClass size < 9)
    (hgiven : HandedOut use (sizeClass size) object state' sizes') :
    GotRoom use size (object + sizeofPointer) sizes' := by
  obtain ⟨hholds, hbefore⟩ := hsize.holds hclass
  have hkept := (huse.allocate hclass hgiven hholds).separate
  have hobject := mem_update_insert use.live (sizeClass size) object
  have hsizes : ∀ j < 9, (sizes'.caches j).cache.objSize = cacheSize j :=
    fun j hj => (hkept.shape j hj).objSize_eq
  obtain ⟨lists, chains, hconsistent⟩ := (hkept.cache _ hclass).consistent
  refine ⟨sizeClass size, hclass, object, hgiven.fresh, rfl, ?_, ?_, fun j hj hfits => ?_,
    fun j hj => ?_, lists, chains, ?_⟩
  · rw [hsizes _ hclass]
    omega
  · rw [hkept.loadPointer_eq hclass hobject, hgiven.sizes_eq]
    exact Function.update_self ..
  · rw [hsizes j hj] at hfits
    rw [hsizes _ hclass, hsizes j hj]
    exact cacheSize_le hclass hj hbefore hfits
  · rw [hgiven.sizes_eq]
    exact Function.update_of_ne hj ..
  · simpa only [Function.update_self] using hconsistent

theorem SizeUse.Invariant.requestOk (huse : use.Invariant) (hsize : Roomy size) :
    RequestOk use size := by
  intro supply hserved
  rcases sizeClass_spec hsize.1 with hnone | ⟨hclass, -, -⟩
  · left
    rw [SizeCaches.allocateFromSizeSlabs]
    exact if_pos (Or.inl hnone)
  · by_cases hgrowable : Growable (use.sizes.cacheAt (sizeClass size))
    · obtain ⟨object, state', sizes', hcall, -, hgiven⟩ :=
        huse.serves hsize hclass hserved hgrowable
      exact Or.inr (Or.inr ⟨_, sizes', hcall, huse.gotRoom hsize hclass hgiven⟩)
    · cases hcall : use.sizes.allocateFromSizeSlabs supply size with
      | error halt => exact Or.inr (Or.inl ⟨hgrowable, halt, rfl⟩)
      | ok result =>
          obtain ⟨address, sizes'⟩ := result
          obtain ⟨-, object, state', rfl, -, hgiven⟩ := huse.served hsize hserved hcall
          exact Or.inr (Or.inr ⟨_, sizes', rfl, huse.gotRoom hsize hclass hgiven⟩)

theorem SizeUse.Invariant.freeOk (huse : use.Invariant) : FreeOk use := by
  intro i hi object hobject supply
  obtain ⟨state', hcall, hfreed⟩ := huse.frees hi hobject supply
  obtain ⟨lists, chains, hconsistent⟩ := (hfreed.separate.cache i hi).consistent
  refine ⟨_, hcall, fun j hj => Function.update_of_ne hj .., lists, chains, ?_⟩
  simpa only [Function.update_self] using hconsistent

/-- While every request is roomy, every roomy request gets its room and every object can be
given back, whatever the callers write to their memory. -/
theorem room_of_run (hinitial : Initialised sizes)
    (hrun : Relation.ReflTransGen (SizeStep Roomy) ⟨sizes, fun _ => ∅, fun _ => 0⟩ use) :
    (∀ size, Roomy size → RequestOk use size) ∧ FreeOk use := by
  have huse := (hinitial.invariant _).run hrun
  exact ⟨fun size hsize => huse.requestOk hsize, huse.freeOk⟩

/-- New size caches on the two pages from `0x100000`. -/
def newSizes : SizeCaches where
  pointers i := 0x300000 + 0x100 * i
  caches i := newSmall (sizeCache i)
  buddy := ⟨Buddy.twoPages, []⟩
  words := fun _ => 0

theorem newSizes_initialised : Initialised newSizes where
  region := ⟨fun _ => ⟨0, 0⟩, 0x100000, 13, Buddy.twoPages, by decide, by decide, by decide,
    by decide, by decide, rfl, .refl⟩
  caches := ⟨newSizes.pointers, fun i => Nat.ne_of_gt (Nat.add_pos_left (by decide) _),
    fun i _ => rfl,
    initializeSizeCaches_eq fun i => Nat.ne_of_gt (Nat.add_pos_left (by decide) _)⟩
  distinct := fun i _ j _ heq => by
    simp only [newSizes] at heq
    omega
  table := fun i _ => ⟨_, rfl⟩
  created := fun i _ => rfl

/-- 28 bytes lie in an object of 32, which the caller fills up to its last word. -/
theorem room_of_run_filled :
    ∃ use, use.live 0 = {0x1001e0} ∧ (∀ size, Roomy size → RequestOk use size) ∧ FreeOk use := by
  obtain ⟨sizes', hcall⟩ : ∃ sizes', newSizes.allocateFromSizeSlabs noSupply 28 =
      .ok (0x1001e4, sizes') := ⟨_, rfl⟩
  have hrequest := @SizeStep.allocate Roomy newSizes sizes' (fun _ => ∅) (fun _ => 0) 28 _
    noSupply (by decide) trivial hcall
  have hclass : sizeClass 28 = 0 := by decide
  have hback : sub32 0x1001e4 sizeofPointer = 0x1001e0 := by decide
  rw [hclass, hback] at hrequest
  have hwrite : WritesInside (0x1001e0 + sizeofPointer) 28 sizes'
      { sizes' with words := Function.update sizes'.words 0x1001fc 0xffffffff } :=
    ⟨rfl, rfl, fun word hword => Function.update_of_ne (by rw [sizeofPointer] at hword; omega) ..,
      fun i => ⟨_, _, _, rfl, fun _ _ => ⟨rfl, rfl, rfl⟩⟩⟩
  have hfill : SizeStep Roomy
      ⟨sizes', Function.update (fun _ => ∅) 0 (insert 0x1001e0 ∅),
        Function.update (fun _ => 0) 0x1001e4 28⟩
      ⟨{ sizes' with words := Function.update sizes'.words 0x1001fc 0xffffffff },
        Function.update (fun _ => ∅) 0 (insert 0x1001e0 ∅),
        Function.update (fun _ => 0) 0x1001e4 28⟩ :=
    @SizeStep.write _ _ _ _ _ 0 _ (by decide) (Finset.mem_insert_self 0x1001e0 ∅) hwrite
  exact ⟨_, rfl, room_of_run newSizes_initialised (.tail (.single hrequest) hfill)⟩

/-- Overwrites a header. -/
def SizeCaches.setHeader (sizes : SizeCaches) (i slab : ℕ) (header : Slab) : SizeCaches :=
  { sizes with
    caches := Function.update sizes.caches i ((sizes.caches i).setSlab slab header) }

/-- A caller writes to a header that lies in its memory. -/
theorem writesInside_setHeader (hslab : slab ∈ (sizes.caches i).created)
    (hi : i < 9) (hsmall : sizeKind i = .small) (hstart : slab < address + size)
    (hend : address < slab + managementSize (sizes.caches i).cache) (header : Slab) :
    WritesInside address size sizes (sizes.setHeader i slab header) := by
  refine ⟨rfl, rfl, fun _ _ => rfl, fun j => ?_⟩
  by_cases hji : j = i
  · subst hji
    refine ⟨_, _, _, Function.update_self .., fun other hother => ⟨rfl, ?_, rfl⟩⟩
    refine Function.update_of_ne ?_ ..
    rintro rfl
    have hapart := hother hi hsmall hslab
    omega
  · exact ⟨_, _, _, Function.update_of_ne hji .., fun _ _ => ⟨rfl, rfl, rfl⟩⟩

/-- The sum wraps around to 3, and an object of 32 bytes is handed out. -/
theorem newSizes_wraps : ¬ RequestOk ⟨newSizes, fun _ => ∅, fun _ => 0⟩ 0xffffffff := by
  intro hok
  obtain ⟨sizes', hcall, hsizes⟩ : ∃ sizes',
      newSizes.allocateFromSizeSlabs noSupply 0xffffffff = .ok (0x1001e4, sizes') ∧
        ∀ i < 9, (sizes'.caches i).cache.objSize ≤ 8192 := ⟨_, rfl, by decide⟩
  rcases hok noSupply trivial with
    hpanic | ⟨hgrowable, -⟩ | ⟨address, after, hreturns, i, hi, object, -, rfl, hinside, -⟩
  · rw [hcall] at hpanic
    cases hpanic
  · exact hgrowable fun _ _ => ⟨0x100000, _, rfl, by decide⟩
  · obtain ⟨-, rfl⟩ := Prod.mk.inj (Except.ok.inj (hcall.symm.trans hreturns))
    have hsize := hsizes i hi
    omega

/-- 300 bytes lie in the first object of 512, which is the header of its slab.  The caller
clears its memory, and with it the magic value. -/
theorem newSizes_cleared :
    ∃ use, Relation.ReflTransGen (SizeStep (· + sizeofPointer < 2 ^ 32))
      ⟨newSizes, fun _ => ∅, fun _ => 0⟩ use ∧ ¬ FreeOk use := by
  obtain ⟨sizes', hcall, hcreated, hobjects, hfree⟩ : ∃ sizes',
      newSizes.allocateFromSizeSlabs noSupply 300 = .ok (0x100004, sizes') ∧
        (sizes'.caches 4).created = insert 0x100000 ∅ ∧
        (sizes'.caches 4).cache.objectsPerSlab = 8 ∧
        SizeCaches.freeFromSizeSlabs noSupply (0x100000 + sizeofPointer)
          (sizes'.setHeader 4 0x100000 ⟨0, 0, 0, 0⟩) = .error invalidMagic :=
    ⟨_, rfl, rfl, rfl, rfl⟩
  have hrequest := @SizeStep.allocate (· + sizeofPointer < 2 ^ 32) newSizes sizes'
    (fun _ => ∅) (fun _ => 0) 300 _ noSupply (by decide) trivial hcall
  have hclass : sizeClass 300 = 4 := by decide
  have hback : sub32 0x100004 sizeofPointer = 0x100000 := by decide
  rw [hclass, hback] at hrequest
  have hwrite : WritesInside (0x100000 + sizeofPointer) 300 sizes'
      (sizes'.setHeader 4 0x100000 ⟨0, 0, 0, 0⟩) := by
    refine writesInside_setHeader ?_ (by decide) (by decide) (by decide) ?_ _
    · rw [hcreated]
      exact Finset.mem_insert_self _ _
    · rw [managementSize, hobjects]
      decide
  have hclear : SizeStep (· + sizeofPointer < 2 ^ 32)
      ⟨sizes', Function.update (fun _ => ∅) 4 (insert 0x100000 ∅),
        Function.update (fun _ => 0) 0x100004 300⟩
      ⟨sizes'.setHeader 4 0x100000 ⟨0, 0, 0, 0⟩,
        Function.update (fun _ => ∅) 4 (insert 0x100000 ∅),
        Function.update (fun _ => 0) 0x100004 300⟩ :=
    @SizeStep.write _ _ _ _ _ 4 _ (by decide) (Finset.mem_insert_self 0x100000 ∅) hwrite
  refine ⟨_, .tail (.single hrequest) hclear, fun hok => ?_⟩
  obtain ⟨after, hreturns, -⟩ :=
    hok 4 (by decide) 0x100000 (Finset.mem_insert_self 0x100000 ∅) noSupply
  rw [hfree] at hreturns
  cases hreturns

/-- Neither half holds for all requests: the sum wraps around for the size `0xffffffff`, and
the first object of 512 bytes is the header of its slab. -/
theorem room_not_always :
    (¬ ∀ sizes use, Initialised sizes →
      Relation.ReflTransGen (SizeStep (· < 2 ^ 32)) ⟨sizes, fun _ => ∅, fun _ => 0⟩ use →
        ∀ size < 2 ^ 32, RequestOk use size) ∧
      ¬ ∀ sizes use, Initialised sizes →
        Relation.ReflTransGen (SizeStep (· + sizeofPointer < 2 ^ 32))
          ⟨sizes, fun _ => ∅, fun _ => 0⟩ use → FreeOk use := by
  constructor
  · intro hall
    exact newSizes_wraps (hall _ _ newSizes_initialised .refl 0xffffffff (by decide))
  · intro hall
    obtain ⟨use, hrun, hfails⟩ := newSizes_cleared
    exact hfails (hall _ _ newSizes_initialised hrun)

end GeexOS.SlabAllocator
