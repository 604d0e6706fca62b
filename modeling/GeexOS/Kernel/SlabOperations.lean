import GeexOS.Kernel.SlabState
import Mathlib.Data.Finset.Card

/-!
# What the slab operations do to lists and slots

The three lists of a cache share the links of the slabs.  A slab's chain of free
slots and its counter describe the same slots, so both tests a slab is moved by
agree with the list it is on.
-/

namespace GeexOS.SlabAllocator

open GeexOS.Words
open GeexOS.Halting
open GeexOS.Linked
open GeexOS.DataStructures
open CacheState

variable {state state' : CacheState} {lists : SlabList → List ℕ} {slab : ℕ}
variable {source target : SlabList}

/-! ## The lists -/

/-- The sequences of slabs on the lists. -/
structure Linked (state : CacheState) (lists : SlabList → List ℕ) : Prop where
  represents : ∀ which, Represents state.links (state.list which) (lists which)
  apart : ∀ which other, which ≠ other → ∀ slab ∈ lists which, slab ∉ lists other

/-- Only links and lists differ. -/
structure SameButLists (state state' : CacheState) : Prop where
  slabs_eq : state'.slabs = state.slabs
  freeArrays_eq : state'.freeArrays = state.freeArrays
  buddy_eq : state'.buddy = state.buddy
  hashTable_eq : state'.hashTable = state.hashTable
  created_eq : state'.created = state.created
  objSize_eq : state'.cache.objSize = state.cache.objSize
  order_eq : state'.cache.order = state.cache.order
  objectsPerSlab_eq : state'.cache.objectsPerSlab = state.cache.objectsPerSlab
  objectsAllocated_eq : state'.cache.objectsAllocated = state.cache.objectsAllocated

theorem SameButLists.refl (state : CacheState) : SameButLists state state :=
  ⟨rfl, rfl, rfl, rfl, rfl, rfl, rfl, rfl, rfl⟩

theorem SameButLists.trans {state'' : CacheState} (hfirst : SameButLists state state')
    (hsecond : SameButLists state' state'') : SameButLists state state'' where
  slabs_eq := hsecond.slabs_eq.trans hfirst.slabs_eq
  freeArrays_eq := hsecond.freeArrays_eq.trans hfirst.freeArrays_eq
  buddy_eq := hsecond.buddy_eq.trans hfirst.buddy_eq
  hashTable_eq := hsecond.hashTable_eq.trans hfirst.hashTable_eq
  created_eq := hsecond.created_eq.trans hfirst.created_eq
  objSize_eq := hsecond.objSize_eq.trans hfirst.objSize_eq
  order_eq := hsecond.order_eq.trans hfirst.order_eq
  objectsPerSlab_eq := hsecond.objectsPerSlab_eq.trans hfirst.objectsPerSlab_eq
  objectsAllocated_eq := hsecond.objectsAllocated_eq.trans hfirst.objectsAllocated_eq

theorem setList_same (state : CacheState) (list : DoublyLinkedList) (links : Links)
    (which : SlabList) : SameButLists state (state.setList list links which) := by
  cases which <;> exact ⟨rfl, rfl, rfl, rfl, rfl, rfl, rfl, rfl, rfl⟩

theorem removeFrom_same (state : CacheState) (source : SlabList) (slab : ℕ) :
    SameButLists state (state.removeFrom source slab) := setList_same _ _ _ _

theorem prependTo_same (hcall : state.prependTo target slab = .ok state') :
    SameButLists state state' := by
  obtain ⟨⟨list, links⟩, -, hstate⟩ := bind_eq_ok.mp hcall
  obtain rfl := Except.ok.inj hstate
  exact setList_same _ _ _ _

theorem moveIf_same {condition : Bool}
    (hcall : state.moveIf condition source target slab = .ok state') :
    SameButLists state state' := by
  cases condition with
  | false =>
      obtain rfl := Except.ok.inj hcall
      exact .refl state
  | true => exact (removeFrom_same state source slab).trans (prependTo_same hcall)

theorem setList_links (state : CacheState) (list : DoublyLinkedList) (links : Links)
    (which : SlabList) : (state.setList list links which).links = links := by
  cases which <;> rfl

theorem list_setList (state : CacheState) (list : DoublyLinkedList) (links : Links)
    (which other : SlabList) : (state.setList list links which).list other =
      if other = which then list else state.list other := by
  cases which <;> cases other <;> rfl

/-- Editing one list leaves the others as they are. -/
theorem Linked.setList (hlinked : Linked state lists) {list : DoublyLinkedList}
    {links : Links} {elements : List ℕ} (hlist : Represents links list elements)
    (hlinks : ∀ which, which ≠ target → ∀ slab ∈ lists which, links slab = state.links slab)
    (hapart : ∀ which, which ≠ target → ∀ slab ∈ lists which, slab ∉ elements) :
    Linked (state.setList list links target) (Function.update lists target elements) where
  represents := fun which => by
    rw [setList_links, list_setList]
    by_cases heq : which = target
    · rw [if_pos heq, heq, Function.update_self]
      exact hlist
    · rw [if_neg heq, Function.update_of_ne heq]
      exact (hlinked.represents which).congr (hlinks which heq)
  apart := fun which other hne slab => by
    by_cases hwhich : which = target
    · have hother : other ≠ target := fun heq => hne (hwhich.trans heq.symm)
      rw [hwhich, Function.update_self, Function.update_of_ne hother]
      exact fun hmem hmem' => hapart other hother slab hmem' hmem
    · rw [Function.update_of_ne hwhich]
      by_cases hother : other = target
      · rw [hother, Function.update_self]
        exact hapart which hwhich slab
      · rw [Function.update_of_ne hother]
        exact hlinked.apart which other hne slab

theorem Linked.removeFrom (hlinked : Linked state lists) (hslab : slab ∈ lists source) :
    SameButLists state (state.removeFrom source slab) ∧
      ∃ lists', Linked (state.removeFrom source slab) lists' ∧
        ∀ which other, other ∈ lists' which ↔ other ≠ slab ∧ other ∈ lists which := by
  obtain ⟨front, back, hsplit⟩ := List.append_of_mem hslab
  have hlist := hlinked.represents source
  have hnodup := hlist.nodup
  rw [hsplit] at hlist hnodup
  obtain ⟨hremoved, hframe⟩ := hlist.remove
  rw [List.nodup_middle, List.nodup_cons] at hnodup
  have hother : ∀ which, which ≠ source → ∀ other ∈ lists which,
      other ≠ slab ∧ other ∉ front ++ back := by
    intro which hne other hmem
    have hfar := hlinked.apart which source hne other hmem
    rw [hsplit, List.mem_append, List.mem_cons] at hfar
    rw [List.mem_append]
    tauto
  refine ⟨setList_same _ _ _ _, Function.update lists source (front ++ back),
    hlinked.setList hremoved ?_ ?_, fun which other => ?_⟩
  · exact fun which hne other hmem => hframe other (hother which hne other hmem).2
  · exact fun which hne other hmem => (hother which hne other hmem).2
  · by_cases heq : which = source
    · rw [heq, Function.update_self, hsplit, List.mem_append, List.mem_append, List.mem_cons]
      constructor
      · intro hmem
        refine ⟨fun hsame => hnodup.1 ?_, by tauto⟩
        rwa [← hsame, List.mem_append]
      · tauto
    · rw [Function.update_of_ne heq]
      exact (and_iff_right_of_imp fun hmem => (hother which heq other hmem).1).symm

theorem Linked.prependTo (hlinked : Linked state lists) (target : SlabList)
    (hslab : ∀ which, slab ∉ lists which) (hne : slab ≠ 0) :
    ∃ state' lists', state.prependTo target slab = .ok state' ∧ SameButLists state state' ∧
      Linked state' lists' ∧ ∀ which other, other ∈ lists' which ↔
        (other = slab ∧ which = target) ∨ other ∈ lists which := by
  obtain ⟨list, links, hcall, hlist, hframe⟩ :=
    (hlinked.represents target).prepend hne (hslab target)
  have hother : ∀ which, which ≠ target → ∀ other ∈ lists which,
      other ∉ slab :: lists target := by
    intro which hwhich other hmem
    rw [List.mem_cons, not_or]
    exact ⟨ne_of_mem_of_not_mem hmem (hslab which), hlinked.apart which target hwhich other hmem⟩
  refine ⟨state.setList list links target, Function.update lists target (slab :: lists target),
    ?_, setList_same _ _ _ _, hlinked.setList hlist ?_ hother, fun which other => ?_⟩
  · rw [CacheState.prependTo, hcall, ok_bind]
  · exact fun which hwhich other hmem => hframe other (hother which hwhich other hmem)
  · by_cases heq : which = target
    · rw [heq, Function.update_self, List.mem_cons]
      tauto
    · rw [Function.update_of_ne heq]
      tauto

/-- Whether or not the slab is moved, it is on one list afterwards. -/
theorem Linked.moveIf (hlinked : Linked state lists) {condition : Bool} {stay : SlabList}
    (target : SlabList) (hslab : slab ∈ lists (if condition then source else stay)) :
    ∃ state' lists', state.moveIf condition source target slab = .ok state' ∧
      SameButLists state state' ∧ Linked state' lists' ∧ ∀ which other, other ∈ lists' which ↔
        (other = slab ∧ which = if condition then target else stay) ∨
          (other ≠ slab ∧ other ∈ lists which) := by
  cases condition with
  | false =>
      have hmem : slab ∈ lists stay := hslab
      refine ⟨state, lists, rfl, .refl state, hlinked, fun which other => ?_⟩
      by_cases heq : other = slab
      · subst heq
        refine ⟨fun hthere => Or.inl ⟨rfl, ?_⟩, ?_⟩
        · by_contra hne
          exact hlinked.apart which stay hne other hthere hmem
        · rintro (⟨_, rfl⟩ | ⟨hne, _⟩)
          · exact hmem
          · exact absurd rfl hne
      · simp [heq]
  | true =>
      have hmem : slab ∈ lists source := hslab
      obtain ⟨hsame, lists', hlinked', hlists'⟩ := hlinked.removeFrom hmem
      have hnew : ∀ which, slab ∉ lists' which := fun which hthere =>
        ((hlists' which slab).mp hthere).1 rfl
      have hne : slab ≠ 0 := (hlinked.represents source).segment.ne_zero hmem
      obtain ⟨state'', lists'', hcall, hsame', hlinked'', hlists''⟩ :=
        hlinked'.prependTo target hnew hne
      refine ⟨state'', lists'', hcall, hsame.trans hsame', hlinked'', fun which other => ?_⟩
      rw [hlists'', hlists', if_pos rfl]

/-! ## The slots -/

/-- The header of a slab whose free slots are those of the chain. -/
structure SlabOk (state : CacheState) (slab : ℕ) (freeSlots : List ℕ) : Prop where
  magic : (state.slabs slab).magicValid = slabMagicValid
  start_pos : 0 < (state.slabs slab).objectStart
  area_le : (state.slabs slab).objectStart +
    state.cache.objSize * state.cache.objectsPerSlab ≤ 2 ^ 32
  chain : Chain (state.freeArrays slab) slabBufEnd (state.slabs slab).freeIndex freeSlots
  chain_lt : ∀ i ∈ freeSlots, i < state.cache.objectsPerSlab
  inUse_add : (state.slabs slab).inUse + freeSlots.length = state.cache.objectsPerSlab

/-- The address of a slot. -/
def slot (state : CacheState) (slab i : ℕ) : ℕ :=
  (state.slabs slab).objectStart + i * state.cache.objSize

/-- The areas of two slabs. -/
def AreasApart (state : CacheState) (left right : ℕ) : Prop :=
  (state.slabs left).objectStart + state.cache.objSize * state.cache.objectsPerSlab ≤
      (state.slabs right).objectStart ∨
    (state.slabs right).objectStart + state.cache.objSize * state.cache.objectsPerSlab ≤
      (state.slabs left).objectStart

/-- The slots that are not free are the live objects. -/
structure Slots (state : CacheState) (chains : ℕ → List ℕ) (live : Finset ℕ) : Prop where
  objSize_pos : 0 < state.cache.objSize
  objects_pos : 0 < state.cache.objectsPerSlab
  objects_le : state.cache.objectsPerSlab ≤ slabBufEnd
  slab : ∀ slab ∈ state.created, SlabOk state slab (chains slab)
  apart : ∀ left ∈ state.created, ∀ right ∈ state.created, left ≠ right →
    AreasApart state left right
  live : ∀ object, object ∈ live ↔ ∃ slab ∈ state.created, ∃ i < state.cache.objectsPerSlab,
    i ∉ chains slab ∧ object = slot state slab i

variable {chains : ℕ → List ℕ} {live : Finset ℕ} {object i j : ℕ} {rest : List ℕ}

theorem Slots.congr (hslots : Slots state chains live) (hsame : SameButLists state state') :
    Slots state' chains live := by
  obtain ⟨hpos, hobjects, hle, hslab, hapart, hlive⟩ := hslots
  obtain ⟨hslabs, harrays, _, _, hcreated, hsize, _, hcount, _⟩ := hsame
  rw [← hsize] at hpos
  rw [← hcount] at hobjects hle
  refine ⟨hpos, hobjects, hle, fun slab hmem => ?_, fun left hleft right hright => ?_,
    fun object => ?_⟩
  · obtain ⟨hmagic, hstart, harea, hchain, hchainLt, hinUse⟩ := hslab slab (hcreated ▸ hmem)
    constructor <;> simp only [hslabs, harrays, hsize, hcount] <;> assumption
  · simp only [AreasApart, hslabs, hsize, hcount]
    exact hapart left (hcreated ▸ hleft) right (hcreated ▸ hright)
  · rw [hlive]
    simp only [slot, hslabs, hsize, hcount, hcreated]

/-- A slot ends inside its area. -/
theorem slot_add_le (state : CacheState) (slab : ℕ) (hi : i < state.cache.objectsPerSlab) :
    slot state slab i + state.cache.objSize ≤ (state.slabs slab).objectStart +
      state.cache.objSize * state.cache.objectsPerSlab := by
  have hmul : (i + 1) * state.cache.objSize ≤
      state.cache.objectsPerSlab * state.cache.objSize := Nat.mul_le_mul_right _ hi
  rw [slot, Nat.mul_comm state.cache.objSize, Nat.add_assoc, ← Nat.succ_mul]
  exact Nat.add_le_add_left hmul _

/-- Different slots do not overlap. -/
theorem Slots.slots_apart (hslots : Slots state chains live) {left right : ℕ}
    (hleft : left ∈ state.created) (hright : right ∈ state.created)
    (hi : i < state.cache.objectsPerSlab) (hj : j < state.cache.objectsPerSlab)
    (hne : left ≠ right ∨ i ≠ j) :
    slot state left i + state.cache.objSize ≤ slot state right j ∨
      slot state right j + state.cache.objSize ≤ slot state left i := by
  by_cases hsame : left = right
  · subst hsame
    rcases Nat.lt_or_gt_of_ne (hne.resolve_left fun hdiffer => hdiffer rfl) with hlt | hgt
    · have hmul : (i + 1) * state.cache.objSize ≤ j * state.cache.objSize :=
        Nat.mul_le_mul_right _ hlt
      rw [Nat.succ_mul] at hmul
      simp only [slot]
      omega
    · have hmul : (j + 1) * state.cache.objSize ≤ i * state.cache.objSize :=
        Nat.mul_le_mul_right _ hgt
      rw [Nat.succ_mul] at hmul
      simp only [slot]
      omega
  · have hfirst := slot_add_le state left hi
    have hsecond := slot_add_le state right hj
    have hbelow : (state.slabs left).objectStart ≤ slot state left i := Nat.le_add_right _ _
    have hbelow' : (state.slabs right).objectStart ≤ slot state right j := Nat.le_add_right _ _
    rcases hslots.apart left hleft right hright hsame with hapart | hapart
    · exact Or.inl (hfirst.trans (hapart.trans hbelow'))
    · exact Or.inr (hsecond.trans (hapart.trans hbelow))

theorem Slots.slot_injective (hslots : Slots state chains live) {left right : ℕ}
    (hleft : left ∈ state.created) (hright : right ∈ state.created)
    (hi : i < state.cache.objectsPerSlab) (hj : j < state.cache.objectsPerSlab)
    (heq : slot state left i = slot state right j) : left = right ∧ i = j := by
  have hpos := hslots.objSize_pos
  by_contra hdiffer
  rw [not_and_or] at hdiffer
  have hapart := hslots.slots_apart hleft hright hi hj hdiffer
  omega

theorem Slots.slot_lt (hslots : Slots state chains live) (hslab : slab ∈ state.created)
    (hi : i < state.cache.objectsPerSlab) : slot state slab i < 2 ^ 32 := by
  have hend := slot_add_le state slab hi
  have harea := (hslots.slab slab hslab).area_le
  have hpos := hslots.objSize_pos
  omega

/-- There are fewer live objects than addresses. -/
theorem Slots.card_lt (hslots : Slots state chains live) : live.card < 2 ^ 32 := by
  have hzero : 0 ∉ live := by
    rw [hslots.live]
    rintro ⟨slab, hslab, i, _, _, hobject⟩
    have hstart := (hslots.slab slab hslab).start_pos
    simp only [slot] at hobject
    omega
  have hsubset : insert 0 live ⊆ Finset.range (2 ^ 32) := by
    intro object hmem
    rw [Finset.mem_range]
    rcases Finset.mem_insert.mp hmem with rfl | hmem
    · exact Nat.two_pow_pos 32
    · obtain ⟨slab, hslab, i, hi, _, rfl⟩ := (hslots.live object).mp hmem
      exact hslots.slot_lt hslab hi
  have hcard := Finset.card_le_card hsubset
  rwa [Finset.card_insert_of_notMem hzero, Finset.card_range] at hcard

theorem SlabOk.length_le {freeSlots : List ℕ} (hslab : SlabOk state slab freeSlots) :
    freeSlots.length ≤ state.cache.objectsPerSlab := by
  have hsum := hslab.inUse_add
  omega

theorem Slots.mem_live_iff (hslots : Slots state chains live) (hslab : slab ∈ state.created)
    (hi : i < state.cache.objectsPerSlab) : slot state slab i ∈ live ↔ i ∉ chains slab := by
  rw [hslots.live]
  constructor
  · rintro ⟨other, hother, j, hj, hfree, heq⟩
    obtain ⟨rfl, rfl⟩ := hslots.slot_injective hslab hother hi hj heq
    exact hfree
  · exact fun hfree => ⟨slab, hslab, i, hi, hfree, rfl⟩

/-- Only the header and the array of one slab differ. -/
def editSlab (state : CacheState) (slab : ℕ) (header : Slab) (array : ℕ → ℕ) : CacheState :=
  (state.setFreeArray slab array).setSlab slab header

@[simp]
theorem editSlab_cache (header : Slab) (array : ℕ → ℕ) :
    (editSlab state slab header array).cache = state.cache := rfl

@[simp]
theorem editSlab_slabs (header : Slab) (array : ℕ → ℕ) :
    (editSlab state slab header array).slabs slab = header := Function.update_self ..

@[simp]
theorem editSlab_freeArrays (header : Slab) (array : ℕ → ℕ) :
    (editSlab state slab header array).freeArrays slab = array := Function.update_self ..

theorem editSlab_objectStart {header : Slab} (array : ℕ → ℕ)
    (hstart : header.objectStart = (state.slabs slab).objectStart) (other : ℕ) :
    ((editSlab state slab header array).slabs other).objectStart =
      (state.slabs other).objectStart := by
  by_cases heq : other = slab
  · rw [heq, editSlab_slabs, hstart]
  · simp [editSlab, setSlab, setFreeArray, Function.update_of_ne heq]

/-- Editing one slab edits the live objects of this slab. -/
theorem Slots.edit (hslots : Slots state chains live) (hslab : slab ∈ state.created)
    {header : Slab} {array : ℕ → ℕ}
    {freeSlots : List ℕ} {live' : Finset ℕ}
    (hstart : header.objectStart = (state.slabs slab).objectStart)
    (hok : SlabOk (editSlab state slab header array) slab freeSlots)
    (hoff : ∀ object, (∀ i < state.cache.objectsPerSlab, object ≠ slot state slab i) →
      (object ∈ live' ↔ object ∈ live))
    (hon : ∀ i < state.cache.objectsPerSlab, slot state slab i ∈ live' ↔ i ∉ freeSlots) :
    Slots (editSlab state slab header array) (Function.update chains slab freeSlots) live' := by
  have hstarts := editSlab_objectStart array hstart
  refine ⟨hslots.objSize_pos, hslots.objects_pos, hslots.objects_le, fun other hother => ?_,
    fun left hleft right hright hne => ?_, fun object => ?_⟩
  · by_cases heq : other = slab
    · rw [heq, Function.update_self]
      exact hok
    · rw [Function.update_of_ne heq]
      obtain ⟨hmagic, hpos, harea, hothers, hothersLt, hsum⟩ := hslots.slab other hother
      constructor <;> simpa only [editSlab, setSlab, setFreeArray, Function.update_of_ne heq]
  · rw [AreasApart, hstarts, hstarts]
    exact hslots.apart left hleft right hright hne
  · have hslots' : ∀ other j, slot (editSlab state slab header array) other j =
        slot state other j := fun other j => by rw [slot, hstarts]; rfl
    simp only [hslots']
    by_cases hinside : ∃ i < state.cache.objectsPerSlab, object = slot state slab i
    · obtain ⟨i, hi, rfl⟩ := hinside
      rw [hon i hi]
      constructor
      · refine fun hfree => ⟨slab, hslab, i, hi, ?_, rfl⟩
        rwa [Function.update_self]
      · rintro ⟨other, hother, j, hj, hfree, heq⟩
        obtain ⟨rfl, rfl⟩ := hslots.slot_injective hslab hother hi hj heq
        rwa [Function.update_self] at hfree
    · push Not at hinside
      rw [hoff object hinside, hslots.live]
      refine exists_congr fun other => and_congr_right fun _ => exists_congr fun j =>
        and_congr_right fun hj => and_congr_left fun heq => ?_
      have hne : other ≠ slab := fun hsame => hinside j hj (hsame ▸ heq)
      rw [Function.update_of_ne hne]

/-- The header of a slab whose first free slot is handed out. -/
def takenHeader (state : CacheState) (slab : ℕ) : Slab :=
  { state.slabs slab with
    freeIndex := state.freeArrays slab (state.slabs slab).freeIndex
    inUse := u32 ((state.slabs slab).inUse + 1) }

theorem SlabOk.inUse_lt (hslab : SlabOk state slab (i :: rest))
    (hle : state.cache.objectsPerSlab ≤ slabBufEnd) :
    u32 ((state.slabs slab).inUse + 1) = (state.slabs slab).inUse + 1 := by
  have hinUse := hslab.inUse_add
  simp only [slabBufEnd, List.length_cons] at hle hinUse
  exact u32_of_lt (by omega)

/-- The first slot of the chain becomes live. -/
theorem Slots.take (hslots : Slots state chains live) (hslab : slab ∈ state.created)
    (hchain : chains slab = i :: rest) :
    Slots (editSlab state slab (takenHeader state slab) (state.freeArrays slab))
      (Function.update chains slab rest) (insert (slot state slab i) live) := by
  have hok := hslots.slab slab hslab
  rw [hchain] at hok
  obtain ⟨hindex, _, hrest⟩ := chain_cons.mp hok.chain
  have hi : i < state.cache.objectsPerSlab := hok.chain_lt i List.mem_cons_self
  have hnodup := List.nodup_cons.mp hok.chain.nodup
  refine hslots.edit hslab rfl ?_ (fun object hout => ?_) fun j hj => ?_
  · refine ⟨?_, ?_, ?_, ?_, fun j hmem => hok.chain_lt j (List.mem_cons_of_mem _ hmem), ?_⟩
    · simpa [takenHeader] using hok.magic
    · simpa [takenHeader] using hok.start_pos
    · simpa [takenHeader] using hok.area_le
    · simpa [takenHeader, hindex] using hrest
    · have hinUse := hok.inUse_add
      have hcount := hok.inUse_lt hslots.objects_le
      have hlength : (state.slabs slab).inUse + 1 + rest.length =
          state.cache.objectsPerSlab := by
        rw [List.length_cons] at hinUse
        omega
      simpa [takenHeader, hcount] using hlength
  · rw [Finset.mem_insert]
    exact or_iff_right (hout i hi)
  · rw [Finset.mem_insert, hslots.mem_live_iff hslab hj, hchain, List.mem_cons, not_or]
    constructor
    · rintro (heq | hfree)
      · rw [(hslots.slot_injective hslab hslab hj hi heq).2]
        exact hnodup.1
      · exact hfree.2
    · intro hfree
      by_cases hsame : j = i
      · exact Or.inl (hsame ▸ rfl)
      · exact Or.inr ⟨hsame, hfree⟩

/-- The header of a slab one of whose slots is given back. -/
def freedHeader (state : CacheState) (slab i : ℕ) : Slab :=
  { state.slabs slab with freeIndex := i, inUse := (state.slabs slab).inUse - 1 }

/-- A slab with a live slot counts it. -/
theorem SlabOk.inUse_pos {freeSlots : List ℕ} (hslab : SlabOk state slab freeSlots)
    (hi : i < state.cache.objectsPerSlab) (hused : i ∉ freeSlots) :
    0 < (state.slabs slab).inUse := by
  have hlt : ∀ j ∈ i :: freeSlots, j < state.cache.objectsPerSlab := by
    intro j hmem
    rcases List.mem_cons.mp hmem with rfl | hmem
    · exact hi
    · exact hslab.chain_lt j hmem
  have hshort := length_le_of_nodup (List.nodup_cons.mpr ⟨hused, hslab.chain.nodup⟩) hlt
  have hsum := hslab.inUse_add
  rw [List.length_cons] at hshort
  omega

/-- A live slot becomes the first of the chain. -/
theorem Slots.put (hslots : Slots state chains live) (hslab : slab ∈ state.created)
    (hi : i < state.cache.objectsPerSlab) (hused : i ∉ chains slab) :
    Slots (editSlab state slab (freedHeader state slab i)
        (Function.update (state.freeArrays slab) i (state.slabs slab).freeIndex))
      (Function.update chains slab (i :: chains slab)) (live.erase (slot state slab i)) := by
  have hok := hslots.slab slab hslab
  have hle := hslots.objects_le
  have hend : i ≠ slabBufEnd := (hi.trans_le hle).ne
  have hpush : Chain (Function.update (state.freeArrays slab) i (state.slabs slab).freeIndex)
      slabBufEnd i (i :: chains slab) :=
    hok.chain.push hend (Function.update_self ..) fun other hmem =>
      Function.update_of_ne (ne_of_mem_of_not_mem hmem hused) _ _
  refine hslots.edit hslab rfl ?_ (fun object hout => ?_) fun j hj => ?_
  · have hlt : ∀ j ∈ i :: chains slab, j < state.cache.objectsPerSlab := by
      intro j hmem
      rcases List.mem_cons.mp hmem with rfl | hmem
      · exact hi
      · exact hok.chain_lt j hmem
    have hpos := hok.inUse_pos hi hused
    have hinUse := hok.inUse_add
    have hcount : (state.slabs slab).inUse - 1 + (i :: chains slab).length =
        state.cache.objectsPerSlab := by
      rw [List.length_cons]
      omega
    refine ⟨?_, ?_, ?_, ?_, hlt, ?_⟩
    · simpa [freedHeader] using hok.magic
    · simpa [freedHeader] using hok.start_pos
    · simpa [freedHeader] using hok.area_le
    · simpa [freedHeader] using hpush
    · simpa [freedHeader] using hcount
  · rw [Finset.mem_erase]
    exact and_iff_right (hout i hi)
  · rw [Finset.mem_erase, hslots.mem_live_iff hslab hj, List.mem_cons, not_or]
    refine and_congr_left fun _ => not_congr ⟨fun heq => ?_, fun heq => heq ▸ rfl⟩
    exact (hslots.slot_injective hslab hslab hj hi heq).2

/-! ## Lists and slots together -/

/-- What a slab on a list looks like. -/
def Fits (which : SlabList) (inUse : ℕ) (freeSlots : List ℕ) : Prop :=
  match which with
  | .full => freeSlots = []
  | .partlyUsed => freeSlots ≠ [] ∧ inUse ≠ 0
  | .free => inUse = 0

/-- Every slab is on the list its slots ask for. -/
structure CacheInvariant (state : CacheState) (lists : SlabList → List ℕ)
    (chains : ℕ → List ℕ) (live : Finset ℕ) : Prop where
  linked : Linked state lists
  created : ∀ slab, slab ∈ state.created ↔ ∃ which, slab ∈ lists which
  fits : ∀ which, ∀ slab ∈ lists which, Fits which (state.slabs slab).inUse (chains slab)
  slots : Slots state chains live
  count : state.cache.objectsAllocated = live.card

/-- What handing out and taking back objects leaves alone. -/
structure SameSlabs (state state' : CacheState) : Prop where
  objectStart_eq : ∀ slab, (state'.slabs slab).objectStart = (state.slabs slab).objectStart
  buddy_eq : state'.buddy = state.buddy
  hashTable_eq : state'.hashTable = state.hashTable
  created_eq : state'.created = state.created
  objSize_eq : state'.cache.objSize = state.cache.objSize
  order_eq : state'.cache.order = state.cache.order
  objectsPerSlab_eq : state'.cache.objectsPerSlab = state.cache.objectsPerSlab

theorem SameSlabs.trans {state'' : CacheState} (hfirst : SameSlabs state state')
    (hsecond : SameSlabs state' state'') : SameSlabs state state'' where
  objectStart_eq := fun slab => (hsecond.objectStart_eq slab).trans (hfirst.objectStart_eq slab)
  buddy_eq := hsecond.buddy_eq.trans hfirst.buddy_eq
  hashTable_eq := hsecond.hashTable_eq.trans hfirst.hashTable_eq
  created_eq := hsecond.created_eq.trans hfirst.created_eq
  objSize_eq := hsecond.objSize_eq.trans hfirst.objSize_eq
  order_eq := hsecond.order_eq.trans hfirst.order_eq
  objectsPerSlab_eq := hsecond.objectsPerSlab_eq.trans hfirst.objectsPerSlab_eq

theorem SameButLists.sameSlabs (hsame : SameButLists state state') : SameSlabs state state' where
  objectStart_eq := fun slab => by rw [hsame.slabs_eq]
  buddy_eq := hsame.buddy_eq
  hashTable_eq := hsame.hashTable_eq
  created_eq := hsame.created_eq
  objSize_eq := hsame.objSize_eq
  order_eq := hsame.order_eq
  objectsPerSlab_eq := hsame.objectsPerSlab_eq

theorem editSlab_sameSlabs {header : Slab} (array : ℕ → ℕ)
    (hstart : header.objectStart = (state.slabs slab).objectStart) :
    SameSlabs state (editSlab state slab header array) :=
  ⟨editSlab_objectStart array hstart, rfl, rfl, rfl, rfl, rfl, rfl⟩

theorem Linked.of_eq (hlinked : Linked state lists) (hlinks : state'.links = state.links)
    (hlist : ∀ which, state'.list which = state.list which) : Linked state' lists where
  represents := fun which => by
    rw [hlinks, hlist]
    exact hlinked.represents which
  apart := hlinked.apart

theorem Linked.editSlab (hlinked : Linked state lists) (slab : ℕ) (header : Slab)
    (array : ℕ → ℕ) : Linked (editSlab state slab header array) lists :=
  hlinked.of_eq rfl fun which => by cases which <;> rfl

theorem checkMagic_eq_ok (hlinked : Linked state lists) {which : SlabList}
    (hmem : slab ∈ lists which) {freeSlots : List ℕ} (hslab : SlabOk state slab freeSlots) :
    state.checkMagic slab = .ok () := by
  have hne : slab ≠ 0 := (hlinked.represents which).segment.ne_zero hmem
  rw [checkMagic, if_neg hne, if_neg (not_not.mpr hslab.magic)]

/-- One slab was edited and is on the list it fits. -/
theorem CacheInvariant.settle (hcache : CacheInvariant state lists chains live)
    (hslab : slab ∈ state.created) {which : SlabList} {lists' : SlabList → List ℕ}
    {freeSlots : List ℕ} {live' : Finset ℕ} (hlinked : Linked state' lists')
    (hlists : ∀ other cell, cell ∈ lists' other ↔
      (cell = slab ∧ other = which) ∨ (cell ≠ slab ∧ cell ∈ lists other))
    (hcreated : state'.created = state.created)
    (hslots : Slots state' (Function.update chains slab freeSlots) live')
    (hinUse : ∀ other, other ≠ slab → (state'.slabs other).inUse = (state.slabs other).inUse)
    (hfits : Fits which (state'.slabs slab).inUse freeSlots)
    (hcount : state'.cache.objectsAllocated = live'.card) :
    CacheInvariant state' lists' (Function.update chains slab freeSlots) live' := by
  refine ⟨hlinked, fun cell => ?_, fun other cell hcell => ?_, hslots, hcount⟩
  · rw [hcreated]
    simp only [hlists]
    by_cases heq : cell = slab
    · rw [heq]
      exact iff_of_true hslab ⟨which, Or.inl ⟨rfl, rfl⟩⟩
    · rw [hcache.created]
      simp [heq]
  · rcases (hlists other cell).mp hcell with ⟨rfl, rfl⟩ | ⟨hne, hmem⟩
    · rwa [Function.update_self]
    · rw [Function.update_of_ne hne, hinUse cell hne]
      exact hcache.fits other cell hmem

/-- The count is set at the end of a call. -/
def setAllocated (state : CacheState) (count : ℕ) : CacheState :=
  { state with cache := { state.cache with objectsAllocated := count } }

theorem Linked.setAllocated (hlinked : Linked state lists) (count : ℕ) :
    Linked (setAllocated state count) lists :=
  hlinked.of_eq rfl fun which => by cases which <;> rfl

theorem Slots.setAllocated (hslots : Slots state chains live) (count : ℕ) :
    Slots (setAllocated state count) chains live := by
  obtain ⟨hpos, hobjects, hle, hslab, hapart, hlive⟩ := hslots
  refine ⟨hpos, hobjects, hle, fun slab hmem => ?_, hapart, hlive⟩
  obtain ⟨hmagic, hstart, harea, hchain, hchainLt, hinUse⟩ := hslab slab hmem
  exact ⟨hmagic, hstart, harea, hchain, hchainLt, hinUse⟩

/-- A slab on the middle list is edited and moved to where it fits. -/
theorem CacheInvariant.editAndMove (hcache : CacheInvariant state lists chains live)
    (hslab : slab ∈ state.created) {state₁ : CacheState} {lists₁ : SlabList → List ℕ}
    (hsame₁ : SameButLists state state₁) (hlinked₁ : Linked state₁ lists₁)
    (hlists₁ : ∀ other cell, cell ∈ lists₁ other ↔
      (cell = slab ∧ other = .partlyUsed) ∨ (cell ≠ slab ∧ cell ∈ lists other))
    {header : Slab} {array : ℕ → ℕ} {freeSlots : List ℕ} {live' : Finset ℕ} {condition : Bool}
    (hstart : header.objectStart = (state₁.slabs slab).objectStart)
    (hslots : Slots (editSlab state₁ slab header array) (Function.update chains slab freeSlots)
      live')
    (hfits : Fits (if condition then target else .partlyUsed) header.inUse freeSlots) :
    ∃ state' lists',
      (editSlab state₁ slab header array).moveIf condition .partlyUsed target slab =
        .ok state' ∧ SameSlabs state state' ∧
      state'.cache.objectsAllocated = state.cache.objectsAllocated ∧
      CacheInvariant (setAllocated state' live'.card) lists'
        (Function.update chains slab freeSlots) live' := by
  have hsource : slab ∈ lists₁ (if condition then SlabList.partlyUsed else .partlyUsed) := by
    rw [ite_self, hlists₁]
    exact Or.inl ⟨rfl, rfl⟩
  obtain ⟨state', lists', hmove, hsame, hlinked, hlists⟩ :=
    (hlinked₁.editSlab slab header array).moveIf target hsource
  have hwhole : ∀ other cell, cell ∈ lists' other ↔
      (cell = slab ∧ other = if condition then target else .partlyUsed) ∨
        (cell ≠ slab ∧ cell ∈ lists other) := by
    intro other cell
    rw [hlists, hlists₁]
    tauto
  have hslabs : state'.slabs = (editSlab state₁ slab header array).slabs := hsame.slabs_eq
  refine ⟨state', lists', hmove,
    hsame₁.sameSlabs.trans ((editSlab_sameSlabs array hstart).trans hsame.sameSlabs),
    hsame.objectsAllocated_eq.trans hsame₁.objectsAllocated_eq, ?_⟩
  refine hcache.settle hslab (hlinked.setAllocated _) hwhole
    (hsame.created_eq.trans hsame₁.created_eq) ((hslots.congr hsame).setAllocated _)
    (fun other hne => ?_) ?_ rfl
  · change (state'.slabs other).inUse = _
    rw [hslabs, ← hsame₁.slabs_eq]
    simp [editSlab, setSlab, setFreeArray, Function.update_of_ne hne]
  · change Fits _ (state'.slabs slab).inUse freeSlots
    rwa [hslabs, editSlab_slabs]

/-- A slab with a free slot is on the free list if it has no objects, or else on the one
of the partly used slabs. -/
theorem CacheInvariant.mem_of_free_slot (hcache : CacheInvariant state lists chains live)
    (hslab : slab ∈ state.created) (hchain : chains slab ≠ []) :
    slab ∈ lists (if (state.slabs slab).isEmpty then SlabList.free else .partlyUsed) := by
  obtain ⟨which, hmem⟩ := (hcache.created slab).mp hslab
  have hfits := hcache.fits which slab hmem
  rw [Slab.isEmpty]
  cases which with
  | full => exact absurd hfits hchain
  | partlyUsed => simpa [hfits.2] using hmem
  | free =>
      have hzero : (state.slabs slab).inUse = 0 := hfits
      simpa [hzero] using hmem

/-- A slab with an object is on the full list if it has no free slot, or else on the one
of the partly used slabs. -/
theorem CacheInvariant.mem_of_used_slot (hcache : CacheInvariant state lists chains live)
    (hslab : slab ∈ state.created) (hinUse : (state.slabs slab).inUse ≠ 0) :
    slab ∈ lists (if (state.slabs slab).isFull then SlabList.full else .partlyUsed) := by
  obtain ⟨which, hmem⟩ := (hcache.created slab).mp hslab
  have hfits := hcache.fits which slab hmem
  have hend := (hcache.slots.slab slab hslab).chain.start_eq_stop_iff
  rw [Slab.isFull]
  cases which with
  | full =>
      have hnil : chains slab = [] := hfits
      simpa [hend.mpr hnil] using hmem
  | partlyUsed => simpa [hend, hfits.1] using hmem
  | free => exact absurd hfits hinUse

/-- `AllocateObject` hands out the first free slot of a slab that has one. -/
theorem CacheInvariant.takeObject (hcache : CacheInvariant state lists chains live)
    (hslab : slab ∈ state.created) (hchain : chains slab = i :: rest) :
    ∃ state' lists', CacheState.takeObject slab state = .ok (slot state slab i, state') ∧
      slot state slab i ∉ live ∧ SameSlabs state state' ∧
      CacheInvariant state' lists' (Function.update chains slab rest)
        (insert (slot state slab i) live) := by
  obtain ⟨which, hmem⟩ := (hcache.created slab).mp hslab
  have hok := hcache.slots.slab slab hslab
  have hcheck := checkMagic_eq_ok hcache.linked hmem hok
  rw [hchain] at hok
  have hi : i < state.cache.objectsPerSlab := hok.chain_lt i List.mem_cons_self
  have hfresh : slot state slab i ∉ live := fun hlive =>
    (hcache.slots.mem_live_iff hslab hi).mp hlive (hchain ▸ List.mem_cons_self)
  have hsource := hcache.mem_of_free_slot hslab (hchain ▸ List.cons_ne_nil i rest)
  obtain ⟨state₁, lists₁, hmove₁, hsame₁, hlinked₁, hlists₁⟩ :=
    hcache.linked.moveIf .partlyUsed hsource
  rw [ite_self] at hlists₁
  have hslab₁ : slab ∈ state₁.created := hsame₁.created_eq ▸ hslab
  have hslot : slot state₁ slab i = slot state slab i := by
    rw [slot, slot, hsame₁.slabs_eq, hsame₁.objSize_eq]
  have hslots₂ := (hcache.slots.congr hsame₁).take hslab₁ hchain
  rw [hslot] at hslots₂
  -- it is full exactly if this was its last free slot
  have hok₂ := hslots₂.slab slab hslab₁
  rw [Function.update_self] at hok₂
  have hinUse : (takenHeader state₁ slab).inUse ≠ 0 := by
    have hcount := hok.inUse_lt hcache.slots.objects_le
    rw [← hsame₁.slabs_eq] at hcount
    rw [takenHeader, hcount]
    exact Nat.succ_ne_zero _
  have hfits : Fits (if (takenHeader state₁ slab).isFull then .full else .partlyUsed)
      (takenHeader state₁ slab).inUse rest := by
    have hlast := hok₂.chain.start_eq_stop_iff
    rw [editSlab_slabs] at hlast
    rw [Slab.isFull]
    by_cases hend : (takenHeader state₁ slab).freeIndex = slabBufEnd
    · simpa [hend, Fits] using hlast.mp hend
    · simpa [hend, Fits] using ⟨fun hnil => hend (hlast.mpr hnil), hinUse⟩
  obtain ⟨state₃, lists₃, hmove₃, hsame₃, hallocated, hcache₃⟩ :=
    hcache.editAndMove hslab hsame₁ hlinked₁ hlists₁
      (show (takenHeader state₁ slab).objectStart = _ from rfl) hslots₂ hfits
  have hcard : (insert (slot state slab i) live).card = live.card + 1 :=
    Finset.card_insert_of_notMem hfresh
  have hcount : u32 (state₃.cache.objectsAllocated + 1) =
      (insert (slot state slab i) live).card := by
    rw [hallocated, hcache.count, hcard]
    exact u32_of_lt (hcard ▸ hslots₂.card_lt)
  refine ⟨_, lists₃, ?_, hfresh, ?_, hcache₃⟩
  · have harray : editSlab state₁ slab (takenHeader state₁ slab) (state₁.freeArrays slab) =
        state₁.setSlab slab (takenHeader state₁ slab) := by
      rw [editSlab, setFreeArray, Function.update_eq_self]
    have hself : ((state₁.setSlab slab (takenHeader state₁ slab)).slabs slab) =
        takenHeader state₁ slab := Function.update_self ..
    have haddress : u32 ((state₁.slabs slab).objectStart +
        (state₁.slabs slab).freeIndex * state₁.cache.objSize) = slot state slab i := by
      have hindex := (chain_cons.mp hok.chain).1
      rw [hsame₁.slabs_eq, hsame₁.objSize_eq, hindex]
      exact u32_of_lt (hcache.slots.slot_lt hslab hi)
    rw [harray] at hmove₃
    rw [CacheState.takeObject, hcheck, ok_bind, hmove₁, ok_bind]
    change (moveIf (((state₁.setSlab slab (takenHeader state₁ slab)).slabs slab).isFull)
      .partlyUsed .full slab (state₁.setSlab slab (takenHeader state₁ slab)) >>= _) = _
    rw [hself, hmove₃, ok_bind, haddress, hcount]
    rfl
  · exact ⟨hsame₃.objectStart_eq, hsame₃.buddy_eq, hsame₃.hashTable_eq, hsame₃.created_eq,
      hsame₃.objSize_eq, hsame₃.order_eq, hsame₃.objectsPerSlab_eq⟩

/-- `FreeObject` takes a live object back. -/
theorem CacheInvariant.putObject (hcache : CacheInvariant state lists chains live)
    (hslab : slab ∈ state.created) (hi : i < state.cache.objectsPerSlab)
    (hused : i ∉ chains slab) :
    ∃ state' lists', CacheState.putObject slab (slot state slab i) state = .ok state' ∧
      SameSlabs state state' ∧ state'.cache.objectsAllocated = live.card ∧
      CacheInvariant (setAllocated state' (live.erase (slot state slab i)).card) lists'
        (Function.update chains slab (i :: chains slab)) (live.erase (slot state slab i)) := by
  obtain ⟨which, hmem⟩ := (hcache.created slab).mp hslab
  have hok := hcache.slots.slab slab hslab
  have hcheck := checkMagic_eq_ok hcache.linked hmem hok
  have hpos := hcache.slots.objSize_pos
  have hinUse := hok.inUse_pos hi hused
  have hsource := hcache.mem_of_used_slot hslab hinUse.ne'
  obtain ⟨state₁, lists₁, hmove₁, hsame₁, hlinked₁, hlists₁⟩ :=
    hcache.linked.moveIf .partlyUsed hsource
  rw [ite_self] at hlists₁
  have hslab₁ : slab ∈ state₁.created := hsame₁.created_eq ▸ hslab
  have hslot : slot state₁ slab i = slot state slab i := by
    rw [slot, slot, hsame₁.slabs_eq, hsame₁.objSize_eq]
  have hslots₂ := (hcache.slots.congr hsame₁).put hslab₁
    (hsame₁.objectsPerSlab_eq.symm ▸ hi) hused
  rw [hslot] at hslots₂
  have hfits : Fits (if (freedHeader state₁ slab i).isEmpty then .free else .partlyUsed)
      (freedHeader state₁ slab i).inUse (i :: chains slab) := by
    rw [Slab.isEmpty]
    by_cases hzero : (freedHeader state₁ slab i).inUse = 0 <;> simp [hzero, Fits]
  obtain ⟨state₃, lists₃, hmove₃, hsame₃, hallocated, hcache₃⟩ :=
    hcache.editAndMove hslab hsame₁ hlinked₁ hlists₁
      (show (freedHeader state₁ slab i).objectStart = _ from rfl) hslots₂ hfits
  refine ⟨state₃, lists₃, ?_, hsame₃, hallocated.trans hcache.count, hcache₃⟩
  have hindex : sub32 (slot state slab i) (state₁.slabs slab).objectStart /
      state₁.cache.objSize = i := by
    have hlt := hcache.slots.slot_lt hslab hi
    have hbelow : (state.slabs slab).objectStart ≤ slot state slab i := Nat.le_add_right _ _
    rw [hsame₁.slabs_eq, hsame₁.objSize_eq, sub32_of_le hlt hbelow, slot,
      Nat.add_sub_cancel_left, Nat.mul_div_cancel i hpos]
  have hcount : sub32 (state₁.slabs slab).inUse 1 = (state₁.slabs slab).inUse - 1 := by
    have hle := hcache.slots.objects_le
    have hsum := hok.inUse_add
    rw [hsame₁.slabs_eq]
    exact sub32_of_le (by simp only [slabBufEnd] at hle; omega) hinUse
  have hself : (editSlab state₁ slab (freedHeader state₁ slab i)
      (Function.update (state₁.freeArrays slab) i (state₁.slabs slab).freeIndex)).slabs slab =
      freedHeader state₁ slab i := editSlab_slabs _ _
  have hnonzero : state₁.cache.objSize ≠ 0 := hsame₁.objSize_eq ▸ hpos.ne'
  rw [CacheState.putObject, hcheck, ok_bind, hmove₁, ok_bind, if_neg hnonzero]
  simp only [hindex, hcount]
  change moveIf ((editSlab state₁ slab (freedHeader state₁ slab i) (Function.update
    (state₁.freeArrays slab) i (state₁.slabs slab).freeIndex)).slabs slab).isEmpty _ _ _ _ = _
  rw [hself]
  exact hmove₃

end GeexOS.SlabAllocator
