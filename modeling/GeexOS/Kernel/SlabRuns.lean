import GeexOS.Kernel.SlabCaches

/-!
# Runs of a slab cache

The calls of one cache come in any order, and between them others use the buddy
region.  After every call each slab is on the list its slots ask for, and what
is not in its chain of free slots is a live object.
-/

namespace GeexOS.SlabAllocator

open GeexOS.Words
open GeexOS.Halting
open GeexOS.Linked
open GeexOS.DataStructures
open CacheState

inductive CacheKind where
  | small
  | large
  deriving DecidableEq, Repr

namespace CacheKind

def allocateObject (kind : CacheKind) (supply : Supply) (state : CacheState) :
    Outcome (ℕ × CacheState) :=
  match kind with
  | .small => SmallCache.allocateObject state
  | .large => LargeCache.allocateObject supply state

def freeObject (kind : CacheKind) (supply : Supply) (object : ℕ) (state : CacheState) :
    Outcome CacheState :=
  match kind with
  | .small => SmallCache.freeObject object state
  | .large => LargeCache.freeObject supply object state

def releaseUnusedMemory (kind : CacheKind) (supply : Supply) (state : CacheState) :
    Outcome CacheState :=
  match kind with
  | .small => SmallCache.releaseUnusedMemory state
  | .large => LargeCache.releaseUnusedMemory supply state

/-- Only large caches are served by other caches. -/
def Served (kind : CacheKind) (supply : Supply) (state : CacheState) : Prop :=
  match kind with
  | .small => True
  | .large => supply.Fits state

/-- The address of the block a slab's objects lie in. -/
def blockOf (kind : CacheKind) (state : CacheState) (slab : ℕ) : ℕ :=
  match kind with
  | .small => slab
  | .large => (state.slabs slab).objectStart

/-- The parts of a slab do not overlap: header, array and objects share the page
of a small slab, and the block of a large one is for its objects. -/
def Room (kind : CacheKind) (cache : SlabCache) : Prop :=
  match kind with
  | .small => cache.order = 0 ∧ sizeofSlab + 4 * cache.objectsPerSlab +
      cache.objSize * cache.objectsPerSlab ≤ pageSize
  | .large => cache.objSize * cache.objectsPerSlab ≤ 2 ^ (cache.order + pageShift)

end CacheKind

/-- A cache in use, with the objects handed out and not taken back. -/
structure CacheUse where
  state : CacheState
  live : Finset ℕ

/-- A call that comes back, or what others do with the region. -/
inductive CacheStep (kind : CacheKind) : CacheUse → CacheUse → Prop
  | allocateObject {state state' : CacheState} {live : Finset ℕ} {object : ℕ}
      (supply : Supply) (hserved : kind.Served supply state) (hgrowable : Growable state)
      (hcall : kind.allocateObject supply state = .ok (object, state')) :
      CacheStep kind ⟨state, live⟩ ⟨state', insert object live⟩
  | freeObject {state state' : CacheState} {live : Finset ℕ} {object : ℕ}
      (supply : Supply) (hobject : object ∈ live)
      (hcall : kind.freeObject supply object state = .ok state') :
      CacheStep kind ⟨state, live⟩ ⟨state', live.erase object⟩
  | releaseUnusedMemory {state state' : CacheState} {live : Finset ℕ} (supply : Supply)
      (hcall : kind.releaseUnusedMemory supply state = .ok state') :
      CacheStep kind ⟨state, live⟩ ⟨state', live⟩
  | elsewhere {state : CacheState} {live : Finset ℕ} {buddy' : Buddy.BuddyState}
      (hstep : Buddy.BuddyStep Buddy.NoWrap state.buddy buddy')
      (hkept : ∀ slab ∈ state.created,
        ⟨kind.blockOf state slab, state.cache.order⟩ ∈ buddy'.live) :
      CacheStep kind ⟨state, live⟩ ⟨{ state with buddy := buddy' }, live⟩

/-- A region whose start is aligned for slabs of every order, in use. -/
def OnSlabRegion (buddy : Buddy.BuddyState) : Prop :=
  ∃ elements start exponent initial, 0 < start ∧ start < 2 ^ 32 ∧
    2 ^ (pageShift + slabMaxOrder) ∣ start ∧ pageShift ≤ exponent ∧ exponent < 32 ∧
    Buddy.new elements start (2 ^ exponent) Buddy.pageShift = .ok initial ∧
    Buddy.BuddyRun Buddy.NoWrap ⟨initial, []⟩ buddy

/-- A cache that has no slabs yet. -/
structure NewCache (kind : CacheKind) (state : CacheState) : Prop where
  region : OnSlabRegion state.buddy
  order_le : state.cache.order ≤ slabMaxOrder
  room : kind.Room state.cache
  objects : 1 ≤ state.cache.objectsPerSlab
  lists : ∀ which, state.list which = .empty
  allocated : state.cache.objectsAllocated = 0
  table : ∃ links, state.hashTable = .new links
  created : state.created = ∅

/-- The list a slab belongs on. -/
def listFor (slab : Slab) (objectsPerSlab : ℕ) : SlabList :=
  if slab.inUse = 0 then .free
  else if slab.inUse = objectsPerSlab then .full
  else .partlyUsed

/-- What users of a cache and its lists rely on. -/
structure Consistent (kind : CacheKind) (state : CacheState) (live : Finset ℕ)
    (lists : SlabList → List ℕ) (chains : ℕ → List ℕ) : Prop where
  represents : ∀ which, Represents state.links (state.list which) (lists which)
  listed : ∀ slab which, slab ∈ lists which ↔
    slab ∈ state.created ∧ which = listFor (state.slabs slab) state.cache.objectsPerSlab
  chain : ∀ slab ∈ state.created, Chain (state.freeArrays slab) slabBufEnd
    (state.slabs slab).freeIndex (chains slab)
  free : ∀ slab ∈ state.created, (chains slab).Nodup ∧
    (∀ i ∈ chains slab, i < state.cache.objectsPerSlab) ∧
      (state.slabs slab).inUse + (chains slab).length = state.cache.objectsPerSlab
  mem_live : ∀ object, object ∈ live ↔ ∃ slab ∈ state.created,
    ∃ i < state.cache.objectsPerSlab, i ∉ chains slab ∧
      object = (state.slabs slab).objectStart + i * state.cache.objSize
  apart : ∀ object ∈ live, ∀ other ∈ live, object ≠ other →
    object + state.cache.objSize ≤ other ∨ other + state.cache.objSize ≤ object
  count : state.cache.objectsAllocated = live.card
  allocates : ∀ supply, kind.Served supply state → Growable state →
    ∃ object state', kind.allocateObject supply state = .ok (object, state') ∧ object ∉ live
  frees : ∀ supply, ∀ object ∈ live, ∃ state',
    kind.freeObject supply object state = .ok state'
  releases : ∀ supply, ∃ state', kind.releaseUnusedMemory supply state = .ok state'

/-! ## The invariant -/

variable {kind : CacheKind} {state : CacheState} {use use' : CacheUse} {supply : Supply}
variable {lists : SlabList → List ℕ} {chains : ℕ → List ℕ} {live : Finset ℕ} {object : ℕ}

def CacheKind.LayoutOk (kind : CacheKind) (state : CacheState) : Prop :=
  match kind with
  | .small => SmallLayout state
  | .large => LargeLayout state

theorem allocateObject_returns (hlayout : kind.LayoutOk state)
    (hcache : CacheInvariant state lists chains live) (hgrowable : Growable state)
    (hserved : kind.Served supply state) :
    ∃ object state' lists' chains', kind.allocateObject supply state = .ok (object, state') ∧
      kind.LayoutOk state' ∧ object ∉ live ∧
        CacheInvariant state' lists' chains' (insert object live) := by
  cases kind with
  | small => exact SmallLayout.allocateObject hlayout hcache hgrowable
  | large => exact LargeLayout.allocateObject hlayout hcache hgrowable hserved

theorem freeObject_returns (hlayout : kind.LayoutOk state)
    (hcache : CacheInvariant state lists chains live) (hobject : object ∈ live)
    (supply : Supply) :
    ∃ state' lists' chains', kind.freeObject supply object state = .ok state' ∧
      kind.LayoutOk state' ∧ CacheInvariant state' lists' chains' (live.erase object) := by
  cases kind with
  | small => exact SmallLayout.freeObject hlayout hcache hobject
  | large => exact LargeLayout.freeObject hlayout hcache hobject

theorem releaseUnusedMemory_returns (hlayout : kind.LayoutOk state)
    (hcache : CacheInvariant state lists chains live) (supply : Supply) :
    ∃ state' lists', kind.releaseUnusedMemory supply state = .ok state' ∧
      kind.LayoutOk state' ∧ CacheInvariant state' lists' chains live := by
  cases kind with
  | small => exact SmallLayout.releaseUnusedMemory hlayout hcache
  | large => exact LargeLayout.releaseUnusedMemory hlayout hcache

/-- The cache keeps its blocks while others use the region. -/
theorem layoutOk_setBuddy (hlayout : kind.LayoutOk state) {buddy' : Buddy.BuddyState}
    (hregion : ∃ cells, RegionOk buddy' cells)
    (hkept : ∀ slab ∈ state.created,
      ⟨kind.blockOf state slab, state.cache.order⟩ ∈ buddy'.live) :
    kind.LayoutOk { state with buddy := buddy' } := by
  cases kind with
  | small =>
      obtain ⟨hlayout, horder, hroom⟩ : SmallLayout state := hlayout
      exact ⟨⟨hregion, hlayout.order_le, hkept, hlayout.inside, hlayout.distinct⟩, horder, hroom⟩
  | large =>
      obtain ⟨hlayout, hroom, htable⟩ : LargeLayout state := hlayout
      exact ⟨⟨hregion, hlayout.order_le, hkept, hlayout.inside, hlayout.distinct⟩, hroom, htable⟩

theorem LayoutOk.layout (hlayout : kind.LayoutOk state) : Layout (kind.blockOf state) state := by
  cases kind with
  | small => exact SmallLayout.layout hlayout
  | large => exact LargeLayout.layout hlayout

theorem layoutOk_elsewhere (hlayout : kind.LayoutOk state) {buddy' : Buddy.BuddyState}
    (hstep : Buddy.BuddyStep Buddy.NoWrap state.buddy buddy')
    (hkept : ∀ slab ∈ state.created,
      ⟨kind.blockOf state slab, state.cache.order⟩ ∈ buddy'.live) :
    kind.LayoutOk { state with buddy := buddy' } := by
  obtain ⟨cells, hregion⟩ := (LayoutOk.layout hlayout).region
  exact layoutOk_setBuddy hlayout (hregion.step hstep) hkept

/-- What holds between the calls. -/
def CacheUse.Invariant (kind : CacheKind) (use : CacheUse) : Prop :=
  kind.LayoutOk use.state ∧ ∃ lists chains, CacheInvariant use.state lists chains use.live

theorem CacheStep.invariant (hstep : CacheStep kind use use') (huse : use.Invariant kind) :
    use'.Invariant kind := by
  obtain ⟨hlayout, lists, chains, hcache⟩ := huse
  cases hstep with
  | @allocateObject state state' live object supply hserved hgrowable hcall =>
      obtain ⟨object', after, lists', chains', hreturns, hlayout', _, hcache'⟩ :=
        allocateObject_returns hlayout hcache hgrowable hserved
      obtain ⟨rfl, rfl⟩ := Prod.mk.inj (Except.ok.inj (hreturns.symm.trans hcall))
      exact ⟨hlayout', lists', chains', hcache'⟩
  | @freeObject state state' live object supply hobject hcall =>
      obtain ⟨after, lists', chains', hreturns, hlayout', hcache'⟩ :=
        freeObject_returns hlayout hcache hobject supply
      obtain rfl := Except.ok.inj (hreturns.symm.trans hcall)
      exact ⟨hlayout', lists', chains', hcache'⟩
  | @releaseUnusedMemory state state' live supply hcall =>
      obtain ⟨after, lists', hreturns, hlayout', hcache'⟩ :=
        releaseUnusedMemory_returns hlayout hcache supply
      obtain rfl := Except.ok.inj (hreturns.symm.trans hcall)
      exact ⟨hlayout', lists', chains, hcache'⟩
  | @elsewhere state live buddy' hstep hkept =>
      exact ⟨layoutOk_elsewhere hlayout hstep hkept, lists, chains,
        hcache.congr_outside buddy' state.hashTable⟩

theorem CacheUse.Invariant.run (huse : use.Invariant kind)
    (hrun : Relation.ReflTransGen (CacheStep kind) use use') : use'.Invariant kind := by
  induction hrun with
  | refl => exact huse
  | tail _ hstep ih => exact hstep.invariant ih

/-! ## New caches -/

theorem startAddress_of_new {elements : ℕ → Buddy.BuddyElement} {start size minimumOrder : ℕ}
    {region : Buddy.BuddyAllocatedMemoryRegion}
    (hnew : Buddy.new elements start size minimumOrder = .ok region) :
    region.startAddress = start := by
  rw [Buddy.new] at hnew
  split at hnew
  · cases hnew
  split at hnew
  · cases hnew
  split at hnew
  · cases hnew
  obtain ⟨pages, _, hnew⟩ := bind_eq_ok.mp hnew
  split at hnew
  · cases hnew
  · rw [← Except.ok.inj hnew]

theorem OnSlabRegion.regionOk {buddy : Buddy.BuddyState} (hregion : OnSlabRegion buddy) :
    ∃ cells, RegionOk buddy cells := by
  obtain ⟨elements, start, exponent, initial, hpos, hstart, haligned, hlow, hhigh, hnew, hrun⟩ :=
    hregion
  induction hrun with
  | refl =>
      obtain ⟨cells, hpartition, _⟩ := Buddy.new_eq_ok hpos hstart hlow hhigh hnew
      exact ⟨cells, ⟨hpartition, by simp⟩, (startAddress_of_new hnew).symm ▸ haligned⟩
  | tail _ hstep ih =>
      obtain ⟨cells, hok⟩ := ih
      exact hok.step hstep

/-- A cache without slabs, whose objects fit their block. -/
structure Fresh (kind : CacheKind) (state : CacheState) : Prop where
  region : ∃ cells, RegionOk state.buddy cells
  order_le : state.cache.order ≤ slabMaxOrder
  small_order : kind = .small → state.cache.order = 0
  room : state.cache.objSize * state.cache.objectsPerSlab ≤ 2 ^ (state.cache.order + pageShift)
  objSize_pos : 0 < state.cache.objSize
  objects_pos : 0 < state.cache.objectsPerSlab
  lists : ∀ which, state.list which = .empty
  allocated : state.cache.objectsAllocated = 0
  table : ∃ links, state.hashTable = .new links
  created : state.created = ∅

/-- Objects of some size are fewer than the end marker. -/
theorem Fresh.objects_le (hfresh : Fresh kind state) :
    state.cache.objectsPerSlab ≤ slabBufEnd := by
  have horder : state.cache.order + pageShift ≤ 17 := Nat.add_le_add_right hfresh.order_le 12
  have hpow : 2 ^ (state.cache.order + pageShift) ≤ 2 ^ 17 :=
    Nat.pow_le_pow_right (by decide) horder
  have hmul := Nat.le_mul_of_pos_left state.cache.objectsPerSlab hfresh.objSize_pos
  have hend : 2 ^ 17 ≤ slabBufEnd := by decide
  exact hmul.trans (hfresh.room.trans (hpow.trans hend))

theorem Fresh.invariant (hfresh : Fresh kind state) : CacheUse.Invariant kind ⟨state, ∅⟩ := by
  have hle := hfresh.objects_le
  obtain ⟨hregion, horder, hzero, hroom, hsize, hobjects, hlists, hallocated, ⟨links, htable⟩,
    hcreated⟩ := hfresh
  have hlayout : ∀ blockOf, Layout blockOf state := fun blockOf => by
    refine ⟨hregion, horder, ?_, ?_, ?_⟩ <;> simp [hcreated]
  refine ⟨?_, fun _ => [], fun _ => [], ?_⟩
  · cases kind with
    | small =>
        have hpage := hzero rfl
        rw [hpage] at hroom
        exact ⟨hlayout _, hpage, hroom⟩
    | large =>
        refine ⟨hlayout _, hroom, Or.inl ⟨?_, hcreated⟩, Or.inl ?_, ?_⟩
        · rw [htable]
          exact ⟨rfl, rfl, rfl⟩
        · rw [htable]
          rfl
        · simp [hcreated]
  · refine ⟨⟨fun which => ?_, by simp⟩, by simp [hcreated], by simp,
      ⟨hsize, hobjects, hle, by simp [hcreated], by simp [hcreated], by simp [hcreated]⟩,
      by simpa using hallocated⟩
    rw [hlists]
    exact ⟨rfl, rfl, trivial, List.nodup_nil⟩

theorem NewCache.fresh (hnew : NewCache kind state) (hsize : state.cache.objSize ≠ 0) :
    Fresh kind state := by
  obtain ⟨hregion, horder, hroom, hobjects, hlists, hallocated, htable, hcreated⟩ := hnew
  refine ⟨hregion.regionOk, horder, fun hkind => ?_, ?_, Nat.pos_of_ne_zero hsize, hobjects,
    hlists, hallocated, htable, hcreated⟩
  · subst hkind
    exact hroom.1
  · cases kind with
    | small =>
        obtain ⟨hzero, hsum⟩ := hroom
        rw [hzero]
        exact (Nat.le_add_left _ _).trans hsum
    | large => exact hroom

theorem NewCache.invariant (hnew : NewCache kind state) (hsize : state.cache.objSize ≠ 0) :
    CacheUse.Invariant kind ⟨state, ∅⟩ := (hnew.fresh hsize).invariant

/-! ## What the invariant says -/

theorem Fits.which_eq {which : SlabList} {slab : Slab} {freeSlots : List ℕ} {objects : ℕ}
    (hfits : Fits which slab.inUse freeSlots) (hsum : slab.inUse + freeSlots.length = objects)
    (hpos : 0 < objects) : which = listFor slab objects := by
  rw [listFor]
  cases which with
  | full =>
      have hnil : freeSlots = [] := hfits
      rw [hnil, List.length_nil, Nat.add_zero] at hsum
      rw [if_neg (by omega), if_pos hsum]
  | partlyUsed =>
      have hlength := List.length_pos_of_ne_nil hfits.1
      rw [if_neg hfits.2, if_neg (by omega)]
  | free =>
      have hzero : slab.inUse = 0 := hfits
      rw [if_pos hzero]

/-- The lists agree with the counters. -/
theorem CacheInvariant.listed (hcache : CacheInvariant state lists chains live) (slab : ℕ)
    (which : SlabList) : slab ∈ lists which ↔
      slab ∈ state.created ∧ which = listFor (state.slabs slab) state.cache.objectsPerSlab := by
  have hplace : ∀ other, slab ∈ lists other → slab ∈ state.created ∧
      other = listFor (state.slabs slab) state.cache.objectsPerSlab := by
    intro other hmem
    have hslab := (hcache.created slab).mpr ⟨other, hmem⟩
    exact ⟨hslab, (hcache.fits other slab hmem).which_eq (hcache.slots.slab slab hslab).inUse_add
      hcache.slots.objects_pos⟩
  refine ⟨hplace which, ?_⟩
  rintro ⟨hslab, rfl⟩
  obtain ⟨other, hmem⟩ := (hcache.created slab).mp hslab
  exact (hplace other hmem).2 ▸ hmem

theorem CacheUse.Invariant.consistent (huse : use.Invariant kind) :
    ∃ lists chains, Consistent kind use.state use.live lists chains := by
  obtain ⟨hlayout, lists, chains, hcache⟩ := huse
  have hslab := hcache.slots.slab
  refine ⟨lists, chains, hcache.linked.represents, hcache.listed,
    fun slab hmem => (hslab slab hmem).chain, fun slab hmem => ?_, hcache.slots.live,
    fun object hobject other hother hne => ?_, hcache.count,
    fun supply hserved hgrowable => ?_, fun supply object hobject => ?_, fun supply => ?_⟩
  · exact ⟨(hslab slab hmem).chain.nodup, (hslab slab hmem).chain_lt, (hslab slab hmem).inUse_add⟩
  · obtain ⟨left, hleft, i, hi, _, rfl⟩ := (hcache.slots.live object).mp hobject
    obtain ⟨right, hright, j, hj, _, rfl⟩ := (hcache.slots.live other).mp hother
    apply hcache.slots.slots_apart hleft hright hi hj
    by_contra hsame
    push Not at hsame
    exact hne (by rw [hsame.1, hsame.2])
  · obtain ⟨object, state', _, _, hcall, _, hfresh, _⟩ :=
      allocateObject_returns hlayout hcache hgrowable hserved
    exact ⟨object, state', hcall, hfresh⟩
  · obtain ⟨state', _, _, hcall, _⟩ := freeObject_returns hlayout hcache hobject supply
    exact ⟨state', hcall⟩
  · obtain ⟨state', _, hcall, _⟩ := releaseUnusedMemory_returns hlayout hcache supply
    exact ⟨state', hcall⟩

/-- Every run of a cache for objects of some size is consistent. -/
theorem consistent_of_run (hnew : NewCache kind state) (hsize : state.cache.objSize ≠ 0)
    (hrun : Relation.ReflTransGen (CacheStep kind) ⟨state, ∅⟩ use) :
    ∃ lists chains, Consistent kind use.state use.live lists chains :=
  ((hnew.invariant hsize).run hrun).consistent

/-- A cache without slabs on the two pages from `0x100000`. -/
def newSmall (cache : SlabCache) : CacheState where
  cache := cache
  links := fun _ => ⟨0, 0⟩
  slabs := fun _ => ⟨0, 0, 0, 0⟩
  freeArrays := fun _ _ => 0
  buddy := ⟨Buddy.twoPages, []⟩
  hashTable := .new fun _ => 0
  created := ∅

theorem newSmall_newCache {cache : SlabCache}
    (hlists : ∀ which, (newSmall cache).list which = .empty)
    (hroom : CacheKind.small.Room cache) (hobjects : 1 ≤ cache.objectsPerSlab)
    (hallocated : cache.objectsAllocated = 0) : NewCache .small (newSmall cache) where
  region := ⟨fun _ => ⟨0, 0⟩, 0x100000, 13, Buddy.twoPages, by decide, by decide, by decide,
    by decide, by decide, rfl, .refl⟩
  order_le := hroom.1.le.trans (Nat.zero_le _)
  room := hroom
  objects := hobjects
  lists := hlists
  allocated := hallocated
  table := ⟨_, rfl⟩
  created := rfl

def noSupply : Supply := ⟨0, fun _ => 0, fun _ _ => 0⟩

/-- `size-256` after one `AllocateObject`. -/
theorem consistent_of_run_size256 :
    ∃ state, ∃ lists chains, Consistent .small state {0x100100} lists chains := by
  have hnew : NewCache .small (newSmall size256) :=
    newSmall_newCache (fun which => by cases which <;> rfl) ⟨rfl, by decide⟩ (by decide) rfl
  have hstep : CacheStep .small ⟨newSmall size256, ∅⟩ ⟨_, {0x100100}⟩ :=
    .allocateObject noSupply trivial (fun _ _ => ⟨0x100000, _, rfl, by decide⟩)
      (show SmallCache.allocateObject (newSmall size256) = .ok (0x100100, _) from rfl)
  exact ⟨_, consistent_of_run hnew (by decide) (.single hstep)⟩

/-- What `CreateCache` makes of objects of 32 bytes under a name of 40 letters:
the end of the name has cleared their size. -/
def longName : SlabCache where
  fullSlabList := .empty
  partialSlabList := .empty
  freeSlabList := .empty
  name := List.replicate 40 97
  objSize := 0
  order := 0
  objectsPerSlab := 113
  objectsAllocated := 0

/-- The first object of such a cache cannot be given back. -/
theorem longName_not_consistent :
    ¬ ∀ (cacheName : Option (List UInt8)) (objectSize alignment buffer : ℕ) (cache : SlabCache)
      (state : CacheState) (use : CacheUse),
      createCache [] buffer cacheName objectSize alignment = .ok (some (.small cache)) →
      state.cache = cache → NewCache .small state →
      Relation.ReflTransGen (CacheStep .small) ⟨state, ∅⟩ use →
      ∃ lists chains, Consistent .small use.state use.live lists chains := by
  intro hall
  have hnew : NewCache .small (newSmall longName) :=
    newSmall_newCache (fun which => by cases which <;> rfl) ⟨rfl, by decide⟩ (by decide) rfl
  have hstep : CacheStep .small ⟨newSmall longName, ∅⟩ ⟨_, {0x101000}⟩ :=
    .allocateObject noSupply trivial (fun _ _ => ⟨0x100000, _, rfl, by decide⟩)
      (show SmallCache.allocateObject (newSmall longName) = .ok (0x101000, _) from rfl)
  have hcreate : createCache [] 0x200000 (some (List.replicate 40 97)) 32 0 =
      .ok (some (.small longName)) := rfl
  obtain ⟨_, _, hconsistent⟩ := hall _ _ _ _ _ _ _ hcreate rfl hnew (.single hstep)
  -- the mask leads to the page behind the slab
  obtain ⟨state', hcall⟩ := hconsistent.frees noSupply 0x101000 (by simp)
  cases hcall

end GeexOS.SlabAllocator
