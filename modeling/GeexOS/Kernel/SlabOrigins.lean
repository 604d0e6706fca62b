import GeexOS.Kernel.SlabEffects

/-!
# The slabs that objects come from

A large cache keeps no record of which slab an object was taken from; it asks
its hash table when the object comes back.  The record kept here is compared
with the answer.
-/

namespace GeexOS.SlabAllocator

open GeexOS.Words
open GeexOS.Halting
open GeexOS.Linked
open GeexOS.DataStructures
open CacheState

/-- An object in use, with the slab and the slot it was taken from. -/
structure LiveObject where
  object : ℕ
  slab : ℕ
  index : ℕ
  deriving DecidableEq, Repr

/-- A large cache with its objects in use. -/
structure TracedUse where
  state : CacheState
  live : List LiveObject

/-- The calls of a large cache, and what others do with the region.  `admissible`
restricts the states in which an object is asked for. -/
inductive TracedStep (admissible : CacheState → Prop) : TracedUse → TracedUse → Prop
  | allocateObject {state middle state' : CacheState} {live : List LiveObject}
      {slab object : ℕ} (supply : Supply) (hserved : supply.Fits state)
      (hadmissible : admissible state)
      (hfound : getNonEmptySlab (LargeCache.grow supply) state = .ok (slab, middle))
      (htake : takeObject slab middle = .ok (object, state')) :
      TracedStep admissible ⟨state, live⟩
        ⟨state', ⟨object, slab, (middle.slabs slab).freeIndex⟩ :: live⟩
  | freeObject {state state' : CacheState} {front back : List LiveObject} {taken : LiveObject}
      (supply : Supply) (hcall : LargeCache.freeObject supply taken.object state = .ok state') :
      TracedStep admissible ⟨state, front ++ taken :: back⟩ ⟨state', front ++ back⟩
  | releaseUnusedMemory {state state' : CacheState} {live : List LiveObject} (supply : Supply)
      (hcall : LargeCache.releaseUnusedMemory supply state = .ok state') :
      TracedStep admissible ⟨state, live⟩ ⟨state', live⟩
  | elsewhere {state : CacheState} {live : List LiveObject} {buddy' : Buddy.BuddyState}
      (hstep : Buddy.BuddyStep Buddy.NoWrap state.buddy buddy')
      (hkept : ∀ slab ∈ state.created,
        ⟨objectStarts state slab, state.cache.order⟩ ∈ buddy'.live) :
      TracedStep admissible ⟨state, live⟩ ⟨{ state with buddy := buddy' }, live⟩

/-- The table leads from the object to the slab it was taken from, and the
quotient is its slot. -/
structure FoundAgain (state : CacheState) (taken : LiveObject) : Prop where
  lookup_eq : state.hashTable.lookup (LargeCache.definitionOf state)
    (LargeCache.lowerBoundary taken.object (1 <<< pageShift <<< state.cache.order)) =
      .ok taken.slab
  index_eq : sub32 taken.object (state.slabs taken.slab).objectStart / state.cache.objSize =
    taken.index

variable {state state' middle : CacheState} {lists : SlabList → List ℕ} {chains : ℕ → List ℕ}
variable {slab object : ℕ} {supply : Supply} {live : List LiveObject} {taken : LiveObject}

/-! ## What the calls keep -/

/-- The slabs that stay have their objects where they were. -/
structure KeepsSlots (state state' : CacheState) : Prop where
  objectStart_eq : ∀ slab ∈ state.created, (state'.slabs slab).objectStart =
    (state.slabs slab).objectStart
  objSize_eq : state'.cache.objSize = state.cache.objSize
  objectsPerSlab_eq : state'.cache.objectsPerSlab = state.cache.objectsPerSlab

theorem KeepsSlots.refl (state : CacheState) : KeepsSlots state state :=
  ⟨fun _ _ => rfl, rfl, rfl⟩

theorem SameSlabs.keepsSlots (hsame : SameSlabs state state') : KeepsSlots state state' :=
  ⟨fun slab _ => hsame.objectStart_eq slab, hsame.objSize_eq, hsame.objectsPerSlab_eq⟩

theorem KeepsSlots.slot_eq (hkeeps : KeepsSlots state state') (hslab : slab ∈ state.created)
    (i : ℕ) : slot state' slab i = slot state slab i := by
  rw [slot, slot, hkeeps.objectStart_eq slab hslab, hkeeps.objSize_eq]

/-- Growing adds one slab and leaves the others alone. -/
theorem grow_keeps (hserved : supply.Fits state)
    (hcall : LargeCache.grow supply state = .ok (slab, state')) :
    KeepsSlots state state' ∧ state.created ⊆ state'.created := by
  obtain ⟨rfl, objectStart, buddy, middle, table, -, hsame, rfl⟩ := LargeCache.grow_eq_ok hcall
  refine ⟨⟨fun other hmem => ?_, hsame.objSize_eq, hsame.objectsPerSlab_eq⟩, ?_⟩
  · have hne : other ≠ supply.descriptor := fun heq => hserved.fresh (heq ▸ hmem)
    change (middle.slabs other).objectStart = _
    rw [hsame.slabs_eq, initSlab_slabs_of_ne _ hne]
  · change state.created ⊆ middle.created
    rw [hsame.created_eq]
    exact Finset.subset_insert _ _

theorem getNonEmptySlab_keeps (hserved : supply.Fits state)
    (hcall : getNonEmptySlab (LargeCache.grow supply) state = .ok (slab, middle)) :
    KeepsSlots state middle ∧ state.created ⊆ middle.created := by
  rcases getNonEmptySlab_eq_ok hcall with ⟨rfl, -⟩ | hgrow
  · exact ⟨.refl _, Finset.Subset.refl _⟩
  · exact grow_keeps hserved hgrow

/-- A call that makes and releases no slab moves no objects. -/
theorem CallEffect.keepsSlots {kind : CacheKind} (heffect : CallEffect kind state state')
    (hcreated : state'.created = state.created) : KeepsSlots state state' :=
  ⟨fun slab hslab => heffect.objectStart_eq slab hslab (hcreated ▸ hslab), heffect.objSize_eq,
    heffect.objectsPerSlab_eq⟩

theorem Shrinks.keepsSlots {kind : CacheKind} (hshrinks : Shrinks kind state state') :
    KeepsSlots state state' :=
  ⟨fun slab _ => hshrinks.objectStart_eq slab, hshrinks.objSize_eq, hshrinks.objectsPerSlab_eq⟩

/-! ## The record agrees with the cache -/

/-- A record says where its object lies. -/
structure Origin (state : CacheState) (taken : LiveObject) : Prop where
  created : taken.slab ∈ state.created
  index_lt : taken.index < state.cache.objectsPerSlab
  object_eq : taken.object = slot state taken.slab taken.index

theorem Origin.keeps (horigin : Origin state taken) (hkeeps : KeepsSlots state state')
    (hcreated : taken.slab ∈ state'.created) : Origin state' taken where
  created := hcreated
  index_lt := hkeeps.objectsPerSlab_eq ▸ horigin.index_lt
  object_eq := by
    rw [hkeeps.slot_eq horigin.created]
    exact horigin.object_eq

theorem SameSlabs.origin (hsame : SameSlabs state state') (horigin : Origin state taken) :
    Origin state' taken :=
  horigin.keeps hsame.keepsSlots (hsame.created_eq ▸ horigin.created)

/-- The addresses of the objects in use. -/
def objectsOf (live : List LiveObject) : Finset ℕ := (live.map LiveObject.object).toFinset

theorem objectsOf_cons : objectsOf (taken :: live) = insert taken.object (objectsOf live) := by
  rw [objectsOf, List.map_cons, List.toFinset_cons, objectsOf]

theorem mem_objectsOf (hmem : taken ∈ live) : taken.object ∈ objectsOf live :=
  List.mem_toFinset.mpr (List.mem_map_of_mem hmem)

theorem objectsOf_erase {front back : List LiveObject}
    (hnodup : ((front ++ taken :: back).map LiveObject.object).Nodup) :
    objectsOf (front ++ back) = (objectsOf (front ++ taken :: back)).erase taken.object := by
  have hinsert : objectsOf (front ++ taken :: back) = objectsOf (taken :: (front ++ back)) :=
    List.toFinset_eq_of_perm _ _ (List.perm_middle.map _)
  have hnodup' := (List.perm_middle.map LiveObject.object).nodup_iff.mp hnodup
  rw [List.map_cons, List.nodup_cons] at hnodup'
  have hfresh : taken.object ∉ objectsOf (front ++ back) := fun hmem =>
    hnodup'.1 (List.mem_toFinset.mp hmem)
  rw [hinsert, objectsOf_cons, Finset.erase_insert hfresh]

/-- What holds between the calls of a large cache. -/
structure TracedUse.Invariant (use : TracedUse) : Prop where
  layout : LargeLayout use.state
  cache : ∃ lists chains, CacheInvariant use.state lists chains (objectsOf use.live)
  nodup : (use.live.map LiveObject.object).Nodup
  origin : ∀ taken ∈ use.live, Origin use.state taken

/-- An object comes from the slab that was found for it. -/
theorem TracedUse.Invariant.allocateObject (huse : Invariant ⟨state, live⟩)
    (hserved : supply.Fits state) (hgrowable : Growable state)
    (hfound : getNonEmptySlab (LargeCache.grow supply) state = .ok (slab, middle))
    (htake : takeObject slab middle = .ok (object, state')) :
    Invariant ⟨state', ⟨object, slab, (middle.slabs slab).freeIndex⟩ :: live⟩ := by
  obtain ⟨hlayout, ⟨lists, chains, hcache⟩, hnodup, horigin⟩ := huse
  obtain ⟨slab', middle', lists₁, chains₁, hreturns, hlayout₁, hcache₁, hslab, hchain⟩ :=
    hcache.getNonEmptySlab hlayout fun hpartly hfree => by
      obtain ⟨address, buddy', hcall, haddress⟩ := hgrowable hpartly hfree
      exact hlayout.grow hcache hcall haddress hserved
  obtain ⟨rfl, rfl⟩ := Prod.mk.inj (Except.ok.inj (hreturns.symm.trans hfound))
  obtain ⟨i, rest, hchain⟩ := List.exists_cons_of_ne_nil hchain
  obtain ⟨state'', lists', htaken, hfresh, hsame, hcache'⟩ := hcache₁.takeObject hslab hchain
  obtain ⟨rfl, rfl⟩ := Prod.mk.inj (Except.ok.inj (htaken.symm.trans htake))
  have hok := hcache₁.slots.slab slab' hslab
  rw [hchain] at hok
  have hindex : (middle'.slabs slab').freeIndex = i := (chain_cons.mp hok.chain).1
  obtain ⟨hkeeps, hsubset⟩ := getNonEmptySlab_keeps hserved hfound
  rw [hindex]
  refine ⟨hlayout₁.same hsame, ⟨lists', Function.update chains₁ slab' rest, ?_⟩, ?_,
    fun taken hmem => hsame.origin ?_⟩
  · rw [objectsOf_cons]
    exact hcache'
  · exact List.nodup_cons.mpr ⟨fun hmem => hfresh (List.mem_toFinset.mpr hmem), hnodup⟩
  · rcases List.mem_cons.mp hmem with rfl | hmem
    · exact ⟨hslab, hok.chain_lt i List.mem_cons_self, rfl⟩
    · have hold := horigin taken hmem
      exact hold.keeps hkeeps (hsubset hold.created)

theorem TracedUse.Invariant.freeObject {front back : List LiveObject}
    (huse : Invariant ⟨state, front ++ taken :: back⟩)
    (hcall : LargeCache.freeObject supply taken.object state = .ok state') :
    Invariant ⟨state', front ++ back⟩ := by
  obtain ⟨hlayout, ⟨lists, chains, hcache⟩, hnodup, horigin⟩ := huse
  have hmem : taken.object ∈ objectsOf (front ++ taken :: back) :=
    mem_objectsOf (List.mem_append_right _ List.mem_cons_self)
  obtain ⟨after, lists', chains', hreturns, hlayout', hcache'⟩ := hlayout.freeObject hcache hmem
  obtain rfl := Except.ok.inj (hreturns.symm.trans hcall)
  obtain ⟨heffect, -, hcreated⟩ := @freeObject_effect .large _ _ _ _ hcall
  have hsublist : (front ++ back).Sublist (front ++ taken :: back) :=
    List.Sublist.append_left (List.sublist_cons_self _ _) _
  refine ⟨hlayout', ⟨lists', chains', ?_⟩, hnodup.sublist (hsublist.map _), fun other hother => ?_⟩
  · rw [objectsOf_erase hnodup]
    exact hcache'
  · have hold := horigin other (hsublist.subset hother)
    exact hold.keeps (heffect.keepsSlots hcreated) (hcreated ▸ hold.created)

/-- No slab is released that an object in use comes from. -/
theorem TracedUse.Invariant.releaseUnusedMemory (huse : Invariant ⟨state, live⟩)
    (hcall : LargeCache.releaseUnusedMemory supply state = .ok state') :
    Invariant ⟨state', live⟩ := by
  obtain ⟨hlayout, ⟨lists, chains, hcache⟩, hnodup, horigin⟩ := huse
  obtain ⟨after, lists', hreturns, hlayout', hcache'⟩ :=
    hlayout.releaseUnusedMemory hcache
  obtain rfl := Except.ok.inj (hreturns.symm.trans hcall)
  have hshrinks := @releaseUnusedMemory_shrinks .large _ _ _ _ _ _ hlayout hcache hcall
  have hkeeps := hshrinks.keepsSlots
  have hsubset := hshrinks.created
  refine ⟨hlayout', ⟨lists', chains, hcache'⟩, hnodup, fun taken hmem => ?_⟩
  have hold := horigin taken hmem
  obtain ⟨slab, hslab, i, hi, _, heq⟩ :=
    (hcache'.slots.live taken.object).mp (mem_objectsOf hmem)
  rw [hkeeps.slot_eq (hsubset hslab), hold.object_eq] at heq
  obtain ⟨hsame, _⟩ := hcache.slots.slot_injective hold.created (hsubset hslab) hold.index_lt
    (hkeeps.objectsPerSlab_eq ▸ hi) heq
  exact hold.keeps hkeeps (hsame ▸ hslab)

variable {use use' : TracedUse}

theorem TracedStep.invariant (hstep : TracedStep Growable use use') (huse : use.Invariant) :
    use'.Invariant := by
  cases hstep with
  | allocateObject supply hserved hgrowable hfound htake =>
      exact huse.allocateObject hserved hgrowable hfound htake
  | freeObject supply hcall => exact huse.freeObject hcall
  | releaseUnusedMemory supply hcall => exact huse.releaseUnusedMemory hcall
  | elsewhere hstep hkept =>
      obtain ⟨hlayout, ⟨lists, chains, hcache⟩, hnodup, horigin⟩ := huse
      refine ⟨@layoutOk_elsewhere .large _ hlayout _ hstep hkept,
        ⟨lists, chains, hcache.congr_outside _ _⟩, hnodup, fun taken hmem => ?_⟩
      obtain ⟨hcreated, hindex, hobject⟩ := horigin taken hmem
      exact ⟨hcreated, hindex, hobject⟩

theorem TracedUse.Invariant.run (huse : use.Invariant)
    (hrun : Relation.ReflTransGen (TracedStep Growable) use use') : use'.Invariant := by
  induction hrun with
  | refl => exact huse
  | tail _ hstep ih => exact hstep.invariant ih

theorem TracedUse.Invariant.foundAgain (huse : Invariant ⟨state, live⟩) (hmem : taken ∈ live) :
    FoundAgain state taken := by
  obtain ⟨hlayout, ⟨lists, chains, hcache⟩, _, horigin⟩ := huse
  obtain ⟨hcreated, hindex, hobject⟩ := horigin taken hmem
  have hlt := hcache.slots.slot_lt hcreated hindex
  have hbelow : (state.slabs taken.slab).objectStart ≤ slot state taken.slab taken.index :=
    Nat.le_add_right _ _
  refine ⟨?_, ?_⟩
  · rw [hobject]
    exact hlayout.lookup_slot hcache hcreated hindex
  · rw [hobject, sub32_of_le hlt hbelow, slot, Nat.add_sub_cancel_left,
      Nat.mul_div_cancel _ hcache.slots.objSize_pos]

/-- A run in which the region has a block whenever the cache grows leads every
object in use back to its slab and slot. -/
theorem foundAgain_of_growable_run (hnew : NewCache .large state)
    (hsize : state.cache.objSize ≠ 0)
    (hrun : Relation.ReflTransGen (TracedStep Growable) ⟨state, []⟩ use) :
    ∀ taken ∈ use.live, FoundAgain use.state taken := by
  obtain ⟨hlayout, lists, chains, hcache⟩ := hnew.invariant hsize
  have hinitial : TracedUse.Invariant ⟨state, []⟩ :=
    ⟨hlayout, ⟨lists, chains, hcache⟩, List.nodup_nil, List.forall_mem_nil _⟩
  exact fun taken hmem => (hinitial.run hrun).foundAgain hmem

/-! ## Two objects a page -/

/-- A cache of two objects a page, without slabs. -/
def twoObjects : SlabCache where
  fullSlabList := .empty
  partialSlabList := .empty
  freeSlabList := .empty
  name := [115, 105, 122, 101]
  objSize := 2048
  order := 0
  objectsPerSlab := 2
  objectsAllocated := 0

def newLarge : CacheState := { newSmall twoObjects with buddy := ⟨Buddy.onePage, []⟩ }

theorem newLarge_newCache : NewCache .large newLarge where
  region := ⟨fun _ => ⟨0, 0⟩, 0x100000, 12, Buddy.onePage, by decide, by decide, by decide,
    by decide, by decide, rfl, .refl⟩
  order_le := by decide
  room := (by decide : 2048 * 2 ≤ 2 ^ (0 + pageShift))
  objects := by decide
  lists := fun which => by cases which <;> rfl
  allocated := rfl
  table := ⟨_, rfl⟩
  created := rfl

/-- The size caches serve a descriptor and cleared tables. -/
def serve (descriptor : ℕ) : Supply := ⟨descriptor, fun _ => 0, fun _ _ => 0⟩

/-- The cache once a slab with a free slot is found. -/
def foundIn (descriptor : ℕ) (state : CacheState) : CacheState :=
  match getNonEmptySlab (LargeCache.grow (serve descriptor)) state with
  | .ok found => found.2
  | .error _ => state

/-- The cache once the object is taken. -/
def takenFrom (slab : ℕ) (state : CacheState) : CacheState :=
  match takeObject slab state with
  | .ok taken => taken.2
  | .error _ => state

/-- The cache after `AllocateObject`, for the descriptors that were served and
the slabs that objects were taken from, the last first. -/
def afterAllocating : List (ℕ × ℕ) → CacheState
  | [] => newLarge
  | (descriptor, slab) :: earlier => takenFrom slab (foundIn descriptor (afterAllocating earlier))

def oneTaken : List (ℕ × ℕ) := [(0x200000, 0x200000)]
def twoTaken : List (ℕ × ℕ) := (0x200100, 0x200000) :: oneTaken
def threeTaken : List (ℕ × ℕ) := (0x200100, 0x200100) :: twoTaken
def fourTaken : List (ℕ × ℕ) := (0x200200, 0x200100) :: threeTaken
def fiveTaken : List (ℕ × ℕ) := (0x200200, 0x200200) :: fourTaken

theorem allocating_step {admissible : CacheState → Prop} {earlier : List (ℕ × ℕ)}
    {live : List LiveObject} {descriptor slab object index : ℕ}
    (hserved : descriptor ≠ 0 ∧ descriptor < 2 ^ 32 ∧
      descriptor ∉ (afterAllocating earlier).created)
    (hadmissible : admissible (afterAllocating earlier))
    (hfound : getNonEmptySlab (LargeCache.grow (serve descriptor)) (afterAllocating earlier) =
      .ok (slab, foundIn descriptor (afterAllocating earlier)))
    (htake : takeObject slab (foundIn descriptor (afterAllocating earlier)) =
      .ok (object, afterAllocating ((descriptor, slab) :: earlier)))
    (hindex : ((foundIn descriptor (afterAllocating earlier)).slabs slab).freeIndex = index) :
    TracedStep admissible ⟨afterAllocating earlier, live⟩
      ⟨afterAllocating ((descriptor, slab) :: earlier), ⟨object, slab, index⟩ :: live⟩ := by
  obtain ⟨hne, hlt, hfresh⟩ := hserved
  rw [← hindex]
  exact .allocateObject (serve descriptor) ⟨hne, hlt, hfresh⟩ hadmissible hfound htake

theorem foundAgain_of_growable_run_oneTaken :
    FoundAgain (afterAllocating oneTaken) ⟨0x100000, 0x200000, 0⟩ := by
  have hstep : TracedStep Growable ⟨afterAllocating [], []⟩
      ⟨afterAllocating oneTaken, [⟨0x100000, 0x200000, 0⟩]⟩ :=
    allocating_step (by decide) (fun _ _ => ⟨0x100000, _, rfl, by decide⟩) rfl rfl rfl
  exact foundAgain_of_growable_run newLarge_newCache (by decide) (.single hstep) _
    List.mem_cons_self

/-- The objects taken, the last first: two of the only page, and three of the
slabs that get no block. -/
def fiveObjects : List LiveObject :=
  [⟨0, 0x200200, 0⟩, ⟨0x800, 0x200100, 1⟩, ⟨0, 0x200100, 0⟩, ⟨0x100800, 0x200000, 1⟩,
    ⟨0x100000, 0x200000, 0⟩]

theorem fiveTaken_run : Relation.ReflTransGen (TracedStep fun _ => True) ⟨newLarge, []⟩
    ⟨afterAllocating fiveTaken, fiveObjects⟩ := by
  have hone : TracedStep (fun _ => True) ⟨afterAllocating [], []⟩
      ⟨afterAllocating oneTaken, fiveObjects.drop 4⟩ :=
    allocating_step (by decide) trivial rfl rfl rfl
  have htwo : TracedStep (fun _ => True) ⟨afterAllocating oneTaken, fiveObjects.drop 4⟩
      ⟨afterAllocating twoTaken, fiveObjects.drop 3⟩ :=
    allocating_step (by decide) trivial rfl rfl rfl
  have hthree : TracedStep (fun _ => True) ⟨afterAllocating twoTaken, fiveObjects.drop 3⟩
      ⟨afterAllocating threeTaken, fiveObjects.drop 2⟩ :=
    allocating_step (by decide) trivial rfl rfl rfl
  have hfour : TracedStep (fun _ => True) ⟨afterAllocating threeTaken, fiveObjects.drop 2⟩
      ⟨afterAllocating fourTaken, fiveObjects.drop 1⟩ :=
    allocating_step (by decide) trivial rfl rfl rfl
  have hfive : TracedStep (fun _ => True) ⟨afterAllocating fourTaken, fiveObjects.drop 1⟩
      ⟨afterAllocating fiveTaken, fiveObjects⟩ :=
    allocating_step (by decide) trivial rfl rfl rfl
  exact ((((Relation.ReflTransGen.single hone).tail htwo).tail hthree).tail hfour).tail hfive

/-- Two slabs without a block share the key 0; the table leads from an object of
the one to the other. -/
theorem blockless_slabs_not_foundAgain :
    ¬ ∀ (state : CacheState) (use : TracedUse), NewCache .large state →
      state.cache.objSize ≠ 0 →
      Relation.ReflTransGen (TracedStep fun _ => True) ⟨state, []⟩ use →
      ∀ taken ∈ use.live, FoundAgain use.state taken := by
  intro hall
  have hfound := (hall newLarge _ newLarge_newCache (by decide) fiveTaken_run
    ⟨0x800, 0x200100, 1⟩ (by decide)).lookup_eq
  have hother : (afterAllocating fiveTaken).hashTable.lookup
      (LargeCache.definitionOf (afterAllocating fiveTaken))
      (LargeCache.lowerBoundary 0x800
        (1 <<< pageShift <<< (afterAllocating fiveTaken).cache.order)) = .ok 0x200200 := rfl
  rw [hother] at hfound
  cases hfound

end GeexOS.SlabAllocator
