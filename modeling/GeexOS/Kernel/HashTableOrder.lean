import GeexOS.Kernel.HashTable

/-!
# The order of the elements of a hash table

New elements go to the front of their chains.  Resizing relinks the elements
one after the other, so it turns every chain around.
-/

namespace GeexOS.DataStructures

open GeexOS.Words
open GeexOS.Halting
open GeexOS.Linked
open GeexOS.Buckets

theorem bucketOf_lt {hash k : ℕ} (hk : k < 32) : bucketOf hash (2 ^ k) < 2 ^ k := by
  have hpos : 1 ≤ 2 ^ k := Nat.one_le_two_pow
  have hlt : 2 ^ k < 2 ^ 32 := Nat.pow_lt_pow_right (by decide) hk
  rw [bucketOf, sub32_of_le hlt hpos, Nat.and_two_pow_sub_one_eq_mod]
  exact Nat.mod_lt _ hpos

namespace Buffer

variable {buffer : Buffer} {size i : ℕ}

theorem read_of_lt (hbytes : 4 * size ≤ buffer.bytes) (hi : i < size) :
    buffer.read i = .ok (buffer.cells i) :=
  if_pos (by omega)

theorem write_of_lt (hbytes : 4 * size ≤ buffer.bytes) (hi : i < size) (value : ℕ) :
    buffer.write i value = .ok { buffer with cells := Function.update buffer.cells i value } :=
  if_pos (by omega)

theorem clear_of_le (hbytes : 4 * size ≤ buffer.bytes) :
    ∃ cleared, buffer.clear size = .ok cleared ∧ cleared.bytes = buffer.bytes ∧
      ∀ i < size, cleared.cells i = 0 := by
  induction size with
  | zero => exact ⟨buffer, rfl, rfl, fun i hi => absurd hi (Nat.not_lt_zero i)⟩
  | succ size ih =>
      obtain ⟨cleared, hclear, hsame, hzero⟩ := ih (by omega)
      have hwrite := write_of_lt (hsame ▸ hbytes) (Nat.lt_succ_self size) 0
      rw [clear, hclear, ok_bind, hwrite]
      refine ⟨_, rfl, hsame, fun i hi => ?_⟩
      rcases Nat.lt_succ_iff_lt_or_eq.mp hi with hlt | rfl
      · exact (Function.update_of_ne hlt.ne _ _).trans (hzero i hlt)
      · exact Function.update_self ..

/-- Clearing more cells than the block has faults. -/
theorem clear_of_lt (hbytes : buffer.bytes < 4 * size) : buffer.clear size = .error .fault := by
  induction size with
  | zero => exact absurd hbytes (Nat.not_lt_zero _)
  | succ size ih =>
      rw [clear]
      rcases Nat.lt_or_ge buffer.bytes (4 * size) with hless | hmore
      · rw [ih hless, error_bind]
      · obtain ⟨cleared, hclear, hsame, _⟩ := clear_of_le hmore
        rw [hclear, ok_bind, write, if_neg (by omega)]

end Buffer

variable {Key : Type} {definition definition' : HashTableDefinition Key}
variable {newStorage : Buffer} {links : ℕ → ℕ} {order : List ℕ}
variable {newSize size bucket fuel value k : ℕ}

/-- The bucket of an element. -/
def indexIn (definition : HashTableDefinition Key) (tableSize value : ℕ) : ℕ :=
  bucketOf (definition.hash value) tableSize

theorem insertInto_of_lists
    (hlists : Lists links 0 newStorage.cells size (indexIn definition size) order)
    (hbytes : 4 * size ≤ newStorage.bytes) (hvalue : value ≠ 0) (hnew : value ∉ order) :
    ∃ target links',
      BHashTable.insertInto definition size value newStorage links = .ok (target, links') ∧
      target.bytes = newStorage.bytes ∧
      Lists links' 0 target.cells size (indexIn definition size) (value :: order) ∧
      ∀ other, other ≠ value → links' other = links other := by
  have hindex := hlists.index_lt value
  have hread := Buffer.read_of_lt hbytes hindex
  have hwrite := Buffer.write_of_lt hbytes hindex value
  refine ⟨{ newStorage with cells := Function.update newStorage.cells _ value }, _, ?_, rfl,
    hlists.push hvalue hnew, fun other hother => ?_⟩
  · rw [indexIn] at hread hwrite
    rw [BHashTable.insertInto, hread, ok_bind, hwrite, ok_bind]
    rfl
  · exact Function.update_of_ne hother _ _

/-- The elements of an old chain come in the reverse order before those of the
new table. -/
theorem moveBucket_of_chain {rest : List ℕ} (hchain : Chain links 0 bucket rest)
    (hlists : Lists links 0 newStorage.cells newSize (indexIn definition newSize) order)
    (hbytes : 4 * newSize ≤ newStorage.bytes) (hapart : ∀ cell ∈ rest, cell ∉ order)
    (hfuel : rest.length < fuel) :
    ∃ target links', BHashTable.moveBucket definition newSize fuel bucket newStorage links =
        .ok (target, links') ∧ target.bytes = newStorage.bytes ∧
      Lists links' 0 target.cells newSize (indexIn definition newSize) (rest.reverse ++ order) ∧
      ∀ other, other ∉ rest → links' other = links other := by
  induction rest generalizing bucket fuel newStorage links order with
  | nil =>
      obtain ⟨fuel, rfl⟩ := Nat.exists_eq_succ_of_ne_zero hfuel.ne_bot
      rw [chain_nil] at hchain
      exact ⟨newStorage, links, if_pos hchain, rfl, hlists, fun _ _ => rfl⟩
  | cons cell rest ih =>
      obtain ⟨fuel, rfl⟩ := Nat.exists_eq_succ_of_ne_zero (Nat.ne_zero_of_lt hfuel)
      obtain ⟨rfl, hcell, hrest⟩ := chain_cons.mp hchain
      have hnodup := List.nodup_cons.mp hchain.nodup
      obtain ⟨middle, links', hinsert, hsame, hmiddle, hlinks⟩ :=
        insertInto_of_lists hlists hbytes hcell (hapart bucket List.mem_cons_self)
      have hfurther : Chain links' 0 (links bucket) rest :=
        hrest.congr fun other hmem => hlinks other (ne_of_mem_of_not_mem hmem hnodup.1)
      have hfar : ∀ other ∈ rest, other ∉ bucket :: order := fun other hmem => by
        rw [List.mem_cons, not_or]
        exact ⟨ne_of_mem_of_not_mem hmem hnodup.1, hapart other (List.mem_cons_of_mem _ hmem)⟩
      obtain ⟨target, links'', hmove, hbytes', htarget, hlinks'⟩ :=
        ih hfurther hmiddle (hsame ▸ hbytes) hfar (Nat.lt_of_succ_lt_succ hfuel)
      refine ⟨target, links'', ?_, hbytes'.trans hsame, ?_, fun other hother => ?_⟩
      · rw [BHashTable.moveBucket, if_neg hcell, hinsert, ok_bind]
        exact hmove
      · rwa [List.reverse_cons, List.append_assoc, List.singleton_append]
      · rw [List.mem_cons, not_or] at hother
        rw [hlinks' other hother.2, hlinks other hother.1]

/-- Chains of distinct addresses are short. -/
theorem length_lt_addresses {cells : List ℕ} (hchain : Chain links 0 bucket cells)
    (hlt : ∀ cell ∈ cells, cell < 2 ^ 32) : cells.length < addresses := by
  have hnodup : (0 :: cells).Nodup := List.nodup_cons.mpr ⟨hchain.stop_notMem, hchain.nodup⟩
  refine length_le_of_nodup hnodup fun cell hmem => ?_
  rcases List.mem_cons.mp hmem with rfl | htail
  · exact Nat.two_pow_pos 32
  · exact hlt cell htail

/-- The buckets from `i` on still have their old chains, the elements of the
others are in the new table. -/
theorem moveBuckets_of_lists {storage : Buffer} {chains : ℕ → List ℕ} {remaining i : ℕ}
    (hold : ∀ bucket, i ≤ bucket → bucket < i + remaining →
      Chain links 0 (storage.cells bucket) (chains bucket) ∧
        ∀ cell ∈ chains bucket, cell ∉ order ∧ cell < 2 ^ 32)
    (hapart : ∀ bucket other, bucket ≠ other → ∀ cell ∈ chains bucket, cell ∉ chains other)
    (hlists : Lists links 0 newStorage.cells newSize (indexIn definition newSize) order)
    (hstorage : 4 * (i + remaining) ≤ storage.bytes)
    (hbytes : 4 * newSize ≤ newStorage.bytes) :
    ∃ target links',
      BHashTable.moveBuckets definition newSize storage remaining i newStorage links =
        .ok (target, links') ∧ target.bytes = newStorage.bytes ∧
      Lists links' 0 target.cells newSize (indexIn definition newSize)
        (((List.range' i remaining).flatMap chains).reverse ++ order) := by
  induction remaining generalizing i newStorage links order with
  | zero => exact ⟨newStorage, links, rfl, rfl, hlists⟩
  | succ remaining ih =>
      obtain ⟨hchain, hcells⟩ := hold i le_rfl (by omega)
      have hlength := length_lt_addresses hchain fun cell hmem => (hcells cell hmem).2
      obtain ⟨middle, links', hmove, hsame, hmiddle, hlinks⟩ :=
        moveBucket_of_chain hchain hlists hbytes (fun cell hmem => (hcells cell hmem).1) hlength
      have hlater : ∀ bucket, i + 1 ≤ bucket → bucket < i + 1 + remaining →
          Chain links' 0 (storage.cells bucket) (chains bucket) ∧
            ∀ cell ∈ chains bucket, cell ∉ (chains i).reverse ++ order ∧ cell < 2 ^ 32 := by
        intro bucket hlow hhigh
        obtain ⟨hothers, hcells'⟩ := hold bucket (by omega) (by omega)
        have hfar := hapart bucket i (by omega)
        refine ⟨hothers.congr fun cell hmem => hlinks cell (hfar cell hmem), fun cell hmem => ?_⟩
        rw [List.mem_append, List.mem_reverse, not_or]
        exact ⟨⟨hfar cell hmem, (hcells' cell hmem).1⟩, (hcells' cell hmem).2⟩
      have hshift : i + 1 + remaining = i + (remaining + 1) := by omega
      obtain ⟨target, links'', hrest, hbytes', htarget⟩ :=
        ih hlater hmiddle (hshift ▸ hstorage) (hsame ▸ hbytes)
      refine ⟨target, links'', ?_, hbytes'.trans hsame, ?_⟩
      · rw [BHashTable.moveBuckets, Buffer.read_of_lt hstorage (by omega), ok_bind, hmove, ok_bind]
        exact hrest
      · rwa [List.range'_succ, List.flatMap_cons, List.reverse_append, List.append_assoc]

/-! ## The loops over one chain -/

variable {slot index count : ℕ} {key : Key} {storage : Buffer} {cells : List ℕ}

theorem lookupLoop_of_chain (definition : HashTableDefinition Key) (key : Key)
    (hchain : Chain links 0 slot cells) (hfuel : cells.length < fuel) :
    BHashTable.lookupLoop definition key links fuel slot =
      .ok ((cells.find? (definition.compare key)).getD 0) := by
  induction cells generalizing slot fuel with
  | nil =>
      obtain ⟨fuel, rfl⟩ := Nat.exists_eq_succ_of_ne_zero (Nat.ne_zero_of_lt hfuel)
      exact if_pos (chain_nil.mp hchain)
  | cons cell rest ih =>
      obtain ⟨fuel, rfl⟩ := Nat.exists_eq_succ_of_ne_zero (Nat.ne_zero_of_lt hfuel)
      obtain ⟨rfl, hcell, hrest⟩ := chain_cons.mp hchain
      rw [BHashTable.lookupLoop, if_neg hcell, List.find?_cons]
      cases definition.compare key slot with
      | true => rfl
      | false => exact ih hrest (Nat.lt_of_succ_lt_succ hfuel)

/-- The chain of the bucket without the value, whether or not it was there. -/
theorem removeLoop_of_chain {front rest : List ℕ} (size count : ℕ)
    (hchain : Chain links 0 (storage.cells index) (front ++ rest)) (hvalue : value ∉ front)
    (hindex : 4 * (index + 1) ≤ storage.bytes) (hfuel : rest.length < fuel) :
    ∃ storage' links', BHashTable.removeLoop value index fuel (front.getLastD 0) (rest.headD 0)
        ⟨size, count, some storage, links⟩ =
        .ok (decide (value ∈ rest), ⟨size, count, some storage', links'⟩) ∧
      storage'.bytes = storage.bytes ∧
      (∀ other, other ≠ index → storage'.cells other = storage.cells other) ∧
      (∀ other, other ∉ front ++ rest → links' other = links other) ∧
      Chain links' 0 (storage'.cells index) ((front ++ rest).erase value) := by
  induction rest generalizing front fuel with
  | nil =>
      obtain ⟨fuel, rfl⟩ := Nat.exists_eq_succ_of_ne_zero (Nat.ne_zero_of_lt hfuel)
      refine ⟨storage, links, rfl, rfl, fun _ _ => rfl, fun _ _ => rfl, ?_⟩
      rwa [List.append_nil, List.erase_of_not_mem hvalue, ← List.append_nil front]
  | cons slot rest ih =>
      obtain ⟨fuel, rfl⟩ := Nat.exists_eq_succ_of_ne_zero (Nat.ne_zero_of_lt hfuel)
      obtain ⟨_, hslot, hrest⟩ := chain_cons.mp hchain.suffix
      have hnext : links slot = rest.headD 0 := hrest.start_eq_headD
      rw [List.headD_cons, BHashTable.removeLoop, if_neg hslot]
      by_cases hfound : value = slot
      · subst hfound
        have hmem : decide (value ∈ value :: rest) = true :=
          decide_eq_true List.mem_cons_self
        rw [if_pos rfl, hmem, List.erase_append_right _ hvalue, List.erase_cons_head]
        rcases List.eq_nil_or_concat' front with rfl | ⟨init, last, rfl⟩
        · -- the head of the chain is in the array
          refine ⟨{ storage with cells := Function.update storage.cells index (links value) },
            links, ?_, rfl, fun other hother => Function.update_of_ne hother _ _,
            fun _ _ => rfl, ?_⟩
          · simp [BHashTable.writeStorage, Buffer.write, hindex]
          · change Chain links 0 (Function.update storage.cells index (links value) index) rest
            rwa [Function.update_self]
        · have hlast : last ≠ 0 := hchain.ne_stop (by simp)
          have hlong : Chain links 0 (storage.cells index) (init ++ last :: value :: rest) := by
            rwa [List.append_assoc, List.singleton_append] at hchain
          refine ⟨storage, Function.update links last (links value), ?_, rfl, fun _ _ => rfl,
            fun other hother => Function.update_of_ne (fun heq => hother (by simp [heq])) _ _, ?_⟩
          · simp [hlast]
          · rw [List.append_assoc, List.singleton_append]
            exact hlong.unlink (Function.update_self ..) fun other _ hne =>
              Function.update_of_ne hne _ _
      · simp only [if_neg hfound, hnext]
        have hfront : value ∉ front ++ [slot] := by
          rw [List.mem_append, List.mem_singleton, not_or]
          exact ⟨hvalue, hfound⟩
        have hshift : front ++ slot :: rest = front ++ [slot] ++ rest := by simp
        rw [hshift] at hchain
        obtain ⟨storage', links', hloop, hafter⟩ :=
          ih hchain hfront (Nat.lt_of_succ_lt_succ hfuel)
        refine ⟨storage', links', ?_, hshift ▸ hafter⟩
        rw [List.getLastD_concat] at hloop
        rw [hloop]
        simp [hfound]

/-! ## Tables -/

/-- `Insert` finds the table too full. -/
def BHashTable.Grows (table : BHashTable) : Prop :=
  u32 (table.curTableSize * 200) / 256 ≤ table.curItemCount

/-- `Remove` finds the table too empty, without the element it takes out. -/
def BHashTable.Shrinks (table : BHashTable) : Prop :=
  kMinimumSize < table.curTableSize ∧
    sub32 table.curItemCount 1 < u32 (table.curTableSize * 50) / 256

instance (table : BHashTable) : Decidable table.Grows := Nat.decLe _ _

instance (table : BHashTable) : Decidable table.Shrinks :=
  inferInstanceAs (Decidable (_ ∧ _))

/-- The table has an array, and its chains list the elements in this order. -/
structure Arranged (definition : HashTableDefinition Key) (table : BHashTable)
    (order : List ℕ) : Prop where
  lists : ∃ storage, table.storage = some storage ∧ 4 * table.curTableSize ≤ storage.bytes ∧
    Lists table.links 0 storage.cells table.curTableSize
      (indexIn definition table.curTableSize) order
  size : ∃ k, 3 ≤ k ∧ k ≤ 29 ∧ table.curTableSize = 2 ^ k
  lt : ∀ value ∈ order, value < 2 ^ 32

/-- The table has no array yet. -/
structure Unsized (table : BHashTable) : Prop where
  size : table.curTableSize = 0
  count : table.curItemCount = 0
  storage : table.storage = none

/-- The order after the elements were relinked, bucket by bucket. -/
def rearranged (definition : HashTableDefinition Key) (tableSize : ℕ) (order : List ℕ) :
    List ℕ :=
  (grouped tableSize (indexIn definition tableSize) order).reverse

variable {table table' : BHashTable} {autoExpand : Bool} {allocation : Option (ℕ → ℕ)}

theorem Arranged.index_lt (htable : Arranged definition table order) (value : ℕ) :
    indexIn definition table.curTableSize value < table.curTableSize := by
  obtain ⟨_, _, _, hlists⟩ := htable.lists
  exact hlists.index_lt value

theorem Arranged.nodup (htable : Arranged definition table order) : order.Nodup := by
  obtain ⟨_, _, _, hlists⟩ := htable.lists
  exact hlists.nodup

theorem Arranged.ne_zero (htable : Arranged definition table order) (hmem : value ∈ order) :
    value ≠ 0 := by
  obtain ⟨_, _, _, hlists⟩ := htable.lists
  exact hlists.ne_stop hmem

theorem Arranged.size_pos (htable : Arranged definition table order) :
    table.curTableSize ≠ 0 := by
  obtain ⟨k, _, _, hsize⟩ := htable.size
  rw [hsize]
  exact (Nat.two_pow_pos k).ne'

theorem Arranged.length_lt (htable : Arranged definition table order) :
    order.length < 2 ^ 32 := by
  have hnodup : (0 :: order).Nodup :=
    List.nodup_cons.mpr ⟨fun hmem => htable.ne_zero hmem rfl, htable.nodup⟩
  refine length_le_of_nodup hnodup fun value hmem => ?_
  rcases List.mem_cons.mp hmem with rfl | hmem
  · exact Nat.two_pow_pos 32
  · exact htable.lt value hmem

/-- The chains do not depend on the number of elements the table counts. -/
theorem Arranged.congr_count (htable : Arranged definition table order) (count : ℕ) :
    Arranged definition { table with curItemCount := count } order :=
  ⟨htable.lists, htable.size, htable.lt⟩

/-- Only the hashes of the elements matter. -/
theorem Arranged.congr_definition (htable : Arranged definition table order)
    (hhash : ∀ value ∈ order, definition'.hash value = definition.hash value) :
    Arranged definition' table order := by
  obtain ⟨⟨storage, hstorage, hroom, hlists⟩, hsize, hlt⟩ := htable
  refine ⟨⟨storage, hstorage, hroom, hlists.congr_index (fun value => ?_) fun value hmem => ?_⟩,
    hsize, hlt⟩
  · obtain ⟨k, _, hhigh, hpow⟩ := hsize
    rw [indexIn, hpow]
    exact bucketOf_lt (by omega)
  · rw [indexIn, indexIn, hhash value hmem]

theorem Arranged.rearranged_perm (htable : Arranged definition table order) (cells : List ℕ) :
    (rearranged definition table.curTableSize cells).Perm cells :=
  (List.reverse_perm _).trans (grouped_perm htable.index_lt)

/-- Relinking turns the elements of one bucket around. -/
theorem Arranged.filter_rearranged (htable : Arranged definition table order) {keep : ℕ → Bool}
    (cells : List ℕ) (hash : ℕ) (hkeep : ∀ cell, keep cell = true → definition.hash cell = hash) :
    (rearranged definition table.curTableSize cells).filter keep = (cells.filter keep).reverse := by
  obtain ⟨k, _, hhigh, hsize⟩ := htable.size
  have hbucket : bucketOf hash table.curTableSize < table.curTableSize := by
    rw [hsize]
    exact bucketOf_lt (by omega)
  rw [rearranged, List.filter_reverse, filter_grouped hbucket]
  intro cell hcell
  rw [indexIn, hkeep cell hcell]

/-- A cleared array lists nothing. -/
theorem lists_cleared (hk : k ≤ 29) (hcells : ∀ i < 2 ^ k, newStorage.cells i = 0) :
    Lists links 0 newStorage.cells (2 ^ k) (indexIn definition (2 ^ k)) [] :=
  Lists.empty (fun _ => bucketOf_lt (by omega)) hcells

/-- What the loops over all buckets start from. -/
theorem chains_of_lists {index : ℕ → ℕ} {storage : Buffer}
    (hlists : Lists links 0 storage.cells size index order)
    (hlt : ∀ value ∈ order, value < 2 ^ 32) (bucket : ℕ) (_ : 0 ≤ bucket)
    (hbucket : bucket < 0 + size) :
    Chain links 0 (storage.cells bucket) (order.filter fun cell => index cell = bucket) ∧
      ∀ cell ∈ order.filter fun cell => index cell = bucket, cell ∉ [] ∧ cell < 2 ^ 32 := by
  rw [Nat.zero_add] at hbucket
  refine ⟨hlists.chain bucket hbucket, fun cell hmem => ⟨List.not_mem_nil, ?_⟩⟩
  exact hlt cell (List.mem_filter.mp hmem).1

theorem chains_apart {index : ℕ → ℕ} (bucket other : ℕ) (hne : bucket ≠ other) :
    ∀ cell ∈ order.filter fun cell => index cell = bucket,
      cell ∉ order.filter fun cell => index cell = other := by
  intro cell hmem hmem'
  have hhere := of_decide_eq_true (List.mem_filter.mp hmem).2
  exact hne (hhere.symm.trans (of_decide_eq_true (List.mem_filter.mp hmem').2))

theorem Arranged.resizeTo (htable : Arranged definition table order) (hlow : 3 ≤ k)
    (hhigh : k ≤ 29) (hbytes : 4 * 2 ^ k ≤ newStorage.bytes) :
    ∃ table', table.resizeTo definition newStorage (2 ^ k) = .ok table' ∧
      table'.curTableSize = 2 ^ k ∧ table'.curItemCount = table.curItemCount ∧
      Arranged definition table' (rearranged definition table.curTableSize order) := by
  obtain ⟨storage, hstorage, hroom, hlists⟩ := htable.lists
  obtain ⟨cleared, hclear, hsame, hzero⟩ := Buffer.clear_of_le hbytes
  have hroom' : 4 * (0 + table.curTableSize) ≤ storage.bytes := by rwa [Nat.zero_add]
  obtain ⟨target, links', hmove, hbytes', htarget⟩ :=
    moveBuckets_of_lists (chains_of_lists hlists htable.lt) chains_apart
      (lists_cleared hhigh hzero) hroom' (hsame ▸ hbytes)
  rw [List.append_nil, ← List.range_eq_range'] at htarget
  have hroom'' : 4 * 2 ^ k ≤ target.bytes := hbytes.trans_eq (hbytes'.trans hsame).symm
  refine ⟨{ table with curTableSize := 2 ^ k, storage := some target, links := links' }, ?_,
    rfl, rfl, ⟨target, rfl, hroom'', htarget⟩, ⟨k, hlow, hhigh, rfl⟩, fun value hmem => ?_⟩
  · simp only [BHashTable.resizeTo, hclear, ok_bind, hstorage, hmove]
  · exact htable.lt value ((htable.rearranged_perm order).mem_iff.mp hmem)

theorem Unsized.resizeTo (htable : Unsized table) (definition : HashTableDefinition Key)
    (hlow : 3 ≤ k) (hhigh : k ≤ 29) (hbytes : 4 * 2 ^ k ≤ newStorage.bytes) :
    ∃ table', table.resizeTo definition newStorage (2 ^ k) = .ok table' ∧
      table'.curTableSize = 2 ^ k ∧ table'.curItemCount = 0 ∧ Arranged definition table' [] := by
  obtain ⟨cleared, hclear, hsame, hzero⟩ := Buffer.clear_of_le hbytes
  have hroom : 4 * 2 ^ k ≤ cleared.bytes := hbytes.trans_eq hsame.symm
  refine ⟨{ table with curTableSize := 2 ^ k, storage := some cleared }, ?_, rfl, htable.count,
    ⟨cleared, rfl, hroom, lists_cleared hhigh hzero⟩, ⟨k, hlow, hhigh, rfl⟩, by simp⟩
  simp only [BHashTable.resizeTo, hclear, ok_bind, htable.storage]

/-- Without memory the table stays as it is. -/
theorem Arranged.tryResize (htable : Arranged definition table order) (hlow : 3 ≤ k)
    (hhigh : k ≤ 29) (allocation : Option (ℕ → ℕ)) :
    ∃ table', table.tryResize definition allocation (2 ^ k) = .ok (allocation.isSome, table') ∧
      table'.curTableSize = (if allocation.isSome then 2 ^ k else table.curTableSize) ∧
      table'.curItemCount = table.curItemCount ∧
      Arranged definition table' (if allocation.isSome then
        rearranged definition table.curTableSize order else order) := by
  cases allocation with
  | none => exact ⟨table, rfl, rfl, rfl, htable⟩
  | some cells =>
      have hpow : 2 ^ k ≤ 2 ^ 29 := Nat.pow_le_pow_right (by decide) hhigh
      have hbytes : 4 * 2 ^ k ≤ (Buffer.mk cells (u32 (4 * 2 ^ k))).bytes :=
        (u32_of_lt (by omega)).ge
      obtain ⟨table', hresize, htable'⟩ := htable.resizeTo hlow hhigh hbytes
      exact ⟨table', by rw [BHashTable.tryResize, hresize, ok_bind]; rfl, htable'⟩

theorem Arranged.insertLast (htable : Arranged definition table order) (hvalue : value ≠ 0)
    (hlt : value < 2 ^ 32) (hnew : value ∉ order) :
    ∃ table', table.insertLast definition value = .ok table' ∧
      table'.curTableSize = table.curTableSize ∧
      table'.curItemCount = u32 (table.curItemCount + 1) ∧
      Arranged definition table' (value :: order) := by
  obtain ⟨storage, hstorage, hroom, hlists⟩ := htable.lists
  obtain ⟨target, links', hinsert, hsame, htarget, _⟩ :=
    insertInto_of_lists hlists hroom hvalue hnew
  refine ⟨⟨table.curTableSize, u32 (table.curItemCount + 1), some target, links'⟩, ?_, rfl, rfl,
    ⟨target, rfl, hroom.trans_eq hsame.symm, htarget⟩, htable.size, fun other hmem => ?_⟩
  · simp only [BHashTable.insertLast, hstorage, hinsert, ok_bind]
  · rcases List.mem_cons.mp hmem with rfl | hmem
    · exact hlt
    · exact htable.lt other hmem

/-- The first half of `Insert`: it tells whether the table has an array. -/
def BHashTable.makeRoom (definition : HashTableDefinition Key) (autoExpand : Bool)
    (allocation : Option (ℕ → ℕ)) (table : BHashTable) : Outcome (Bool × BHashTable) :=
  if table.curTableSize = 0 then table.tryResize definition allocation kMinimumSize
  else if autoExpand ∧ u32 (table.curTableSize * 200) / 256 ≤ table.curItemCount then do
    let (_, table) ← table.tryResize definition allocation (u32 (table.curTableSize * 2))
    .ok (true, table)
  else .ok (true, table)

theorem insert_of_makeRoom {middle : BHashTable}
    (hroom : table.makeRoom definition autoExpand allocation = .ok (true, middle))
    (hinsert : middle.insertLast definition value = .ok table') :
    table.insert definition autoExpand allocation value = .ok (true, table') := by
  rw [BHashTable.makeRoom] at hroom
  rw [BHashTable.insert]
  by_cases hnone : table.curTableSize = 0
  · rw [if_pos hnone] at hroom ⊢
    simp only [hroom, ok_bind, if_true, hinsert]
  · rw [if_neg hnone] at hroom ⊢
    by_cases hexpand : autoExpand = true ∧
        u32 (table.curTableSize * 200) / 256 ≤ table.curItemCount
    · rw [if_pos hexpand] at hroom ⊢
      obtain ⟨⟨done, after⟩, hresize, hlast⟩ := bind_eq_ok.mp hroom
      obtain ⟨-, rfl⟩ := Prod.mk.inj (Except.ok.inj hlast)
      simp only [hresize, ok_bind, if_true, hinsert]
    · rw [if_neg hexpand] at hroom ⊢
      obtain ⟨-, rfl⟩ := Prod.mk.inj (Except.ok.inj hroom)
      simp only [ok_bind, if_true, hinsert]

/-- A table that is too full is given an array of twice the size, if there is memory. -/
theorem Arranged.makeRoom (htable : Arranged definition table order)
    (hfits : autoExpand = true → table.curTableSize = 2 ^ 29 → allocation = none) :
    ∃ middle, table.makeRoom definition autoExpand allocation = .ok (true, middle) ∧
      middle.curTableSize = (if autoExpand = true ∧ table.Grows ∧ allocation.isSome then
        2 * table.curTableSize else table.curTableSize) ∧
      middle.curItemCount = table.curItemCount ∧
      Arranged definition middle (if autoExpand = true ∧ table.Grows ∧ allocation.isSome then
        rearranged definition table.curTableSize order else order) := by
  obtain ⟨k, hlow, hhigh, hsize⟩ := htable.size
  rw [BHashTable.makeRoom, if_neg htable.size_pos]
  by_cases hexpand : autoExpand = true ∧ table.Grows
  · obtain ⟨middle, hmiddle, hsize', hcount, hmiddle'⟩ : ∃ middle,
        table.tryResize definition allocation (u32 (table.curTableSize * 2)) =
          .ok (allocation.isSome, middle) ∧
        middle.curTableSize = (if allocation.isSome then
          2 * table.curTableSize else table.curTableSize) ∧
        middle.curItemCount = table.curItemCount ∧
        Arranged definition middle (if allocation.isSome then
          rearranged definition table.curTableSize order else order) := by
      rcases Nat.lt_or_eq_of_le hhigh with hsmall | rfl
      · have hpow : 2 ^ (k + 1) ≤ 2 ^ 29 := Nat.pow_le_pow_right (by decide) hsmall
        have hdouble : u32 (table.curTableSize * 2) = 2 ^ (k + 1) := by
          rw [hsize, ← pow_succ, u32_of_lt (by omega)]
        have htwice : 2 * table.curTableSize = 2 ^ (k + 1) := by
          rw [hsize, pow_succ, Nat.mul_comm]
        rw [hdouble, htwice]
        exact htable.tryResize (by omega) hsmall allocation
      · rw [hfits hexpand.1 hsize]
        exact ⟨table, rfl, rfl, rfl, htable⟩
    have hresized : (autoExpand = true ∧ table.Grows ∧ allocation.isSome = true) ↔
        allocation.isSome = true := by tauto
    simp only [hresized]
    refine ⟨middle, ?_, hsize', hcount, hmiddle'⟩
    rw [BHashTable.Grows] at hexpand
    rw [if_pos hexpand, hmiddle, ok_bind]
  · have hstays : ¬ (autoExpand = true ∧ table.Grows ∧ allocation.isSome = true) := by tauto
    rw [if_neg hstays, if_neg hstays]
    refine ⟨table, ?_, rfl, rfl, htable⟩
    rw [BHashTable.Grows] at hexpand
    rw [if_neg hexpand]

/-- `Insert` puts the value before all others, unless it gets a block for an
array of `2^30` pointers, whose size in bytes is 0. -/
theorem Arranged.insert (htable : Arranged definition table order) (hvalue : value ≠ 0)
    (hlt : value < 2 ^ 32) (hnew : value ∉ order)
    (hfits : autoExpand = true → table.curTableSize = 2 ^ 29 → allocation = none) :
    ∃ table', table.insert definition autoExpand allocation value = .ok (true, table') ∧
      table'.curTableSize = (if autoExpand = true ∧ table.Grows ∧ allocation.isSome then
        2 * table.curTableSize else table.curTableSize) ∧
      table'.curItemCount = u32 (table.curItemCount + 1) ∧
      Arranged definition table'
        (value :: if autoExpand = true ∧ table.Grows ∧ allocation.isSome then
          rearranged definition table.curTableSize order else order) := by
  obtain ⟨middle, hmiddle, hsize, hcount, hmiddle'⟩ := htable.makeRoom hfits
  have hnew' : value ∉ if autoExpand = true ∧ table.Grows ∧ allocation.isSome then
      rearranged definition table.curTableSize order else order := by
    split
    · rwa [(htable.rearranged_perm order).mem_iff]
    · exact hnew
  obtain ⟨table', hinsert, hsize', hcount', htable'⟩ := hmiddle'.insertLast hvalue hlt hnew'
  exact ⟨table', insert_of_makeRoom hmiddle hinsert, hsize'.trans hsize, hcount ▸ hcount', htable'⟩

/-- A table without an array is given one of the smallest size. -/
theorem Unsized.makeRoom (htable : Unsized table) (definition : HashTableDefinition Key)
    (autoExpand : Bool) (contents : ℕ → ℕ) :
    ∃ middle, table.makeRoom definition autoExpand (some contents) = .ok (true, middle) ∧
      middle.curTableSize = kMinimumSize ∧ middle.curItemCount = 0 ∧
      Arranged definition middle [] := by
  have hbytes : 4 * 2 ^ 3 ≤ (Buffer.mk contents (u32 (4 * kMinimumSize))).bytes :=
    Nat.le_refl 32
  obtain ⟨middle, hresize, hmiddle⟩ := htable.resizeTo definition (le_refl 3) (by decide) hbytes
  refine ⟨middle, ?_, hmiddle⟩
  have hminimum : kMinimumSize = 2 ^ 3 := rfl
  rw [← hminimum] at hresize
  rw [BHashTable.makeRoom, if_pos htable.size, BHashTable.tryResize, hresize, ok_bind]

/-- The first `Insert` needs memory for the array. -/
theorem Unsized.insertArranged (htable : Unsized table) (definition : HashTableDefinition Key)
    (autoExpand : Bool) (hvalue : value ≠ 0) (hlt : value < 2 ^ 32) (contents : ℕ → ℕ) :
    ∃ table', table.insert definition autoExpand (some contents) value = .ok (true, table') ∧
      table'.curTableSize = kMinimumSize ∧ table'.curItemCount = 1 ∧
      Arranged definition table' [value] := by
  obtain ⟨middle, hroom, hsize, hcount, hmiddle⟩ := htable.makeRoom definition autoExpand contents
  obtain ⟨table', hinsert, hsize', hcount', htable'⟩ :=
    hmiddle.insertLast hvalue hlt List.not_mem_nil
  have hone : u32 (middle.curItemCount + 1) = 1 := by
    rw [hcount]
    rfl
  exact ⟨table', insert_of_makeRoom hroom hinsert, hsize'.trans hsize, hcount'.trans hone, htable'⟩

/-- `Lookup` finds the first element in the order that the key compares to. -/
theorem Arranged.lookup (htable : Arranged definition table order) (key : Key) :
    table.lookup definition key = .ok ((order.find? (definition.compare key)).getD 0) := by
  obtain ⟨storage, hstorage, hroom, hlists⟩ := htable.lists
  obtain ⟨k, hlow, hhigh, hsize⟩ := htable.size
  have hbucket : bucketOf (definition.hashKey key) table.curTableSize < table.curTableSize := by
    rw [hsize]
    exact bucketOf_lt (by omega)
  have hchain := hlists.chain _ hbucket
  have hloop := lookupLoop_of_chain definition key hchain
    (length_lt_addresses hchain fun cell hmem => htable.lt cell (List.mem_filter.mp hmem).1)
  have hread : table.readStorage (bucketOf (definition.hashKey key) table.curTableSize) =
      .ok (storage.cells (bucketOf (definition.hashKey key) table.curTableSize)) := by
    rw [BHashTable.readStorage, hstorage]
    exact Buffer.read_of_lt hroom hbucket
  -- the key compares to elements of its own bucket only
  have hfind : (order.filter fun cell => indexIn definition table.curTableSize cell =
      bucketOf (definition.hashKey key) table.curTableSize).find? (definition.compare key) =
        order.find? (definition.compare key) := by
    rw [List.find?_filter]
    refine congrArg (fun keep => order.find? keep) (funext fun cell => ?_)
    cases hcompare : definition.compare key cell with
    | false => simp
    | true =>
        have hsame : bucketOf (definition.hashKey key) table.curTableSize =
            indexIn definition table.curTableSize cell := by
          rw [definition.hashKey_of_compare key cell hcompare]
          rfl
        simp [hsame]
  rw [BHashTable.lookup, if_neg htable.size_pos, hread, ok_bind, hloop, hfind]

/-- The loop of `Remove` leaves the other elements where they are. -/
theorem Arranged.removeLoop {storage : Buffer} {count : ℕ}
    (htable : Arranged definition ⟨size, count, some storage, links⟩ order) (value : ℕ) :
    ∃ storage' links', BHashTable.removeLoop value (indexIn definition size value) addresses 0
        (storage.cells (indexIn definition size value)) ⟨size, count, some storage, links⟩ =
        .ok (decide (value ∈ order), ⟨size, count, some storage', links'⟩) ∧
      Arranged definition ⟨size, count, some storage', links'⟩ (order.erase value) := by
  obtain ⟨_, hstorage, hroom, hlists⟩ := htable.lists
  cases hstorage
  have hbucket := hlists.index_lt value
  have hchain := hlists.chain _ hbucket
  have hlength := length_lt_addresses hchain fun cell hmem =>
    htable.lt cell (List.mem_filter.mp hmem).1
  have hindex : 4 * (indexIn definition size value + 1) ≤ storage.bytes := by
    simp only at hroom hbucket
    omega
  have hwhole : Chain links 0 (storage.cells (indexIn definition size value))
      ([] ++ order.filter fun cell =>
        indexIn definition size cell = indexIn definition size value) := hchain
  obtain ⟨storage', links', hloop, hbytes, hheads, hlinks, hchain'⟩ :=
    removeLoop_of_chain size count hwhole List.not_mem_nil hindex hlength
  have hmem : (value ∈ order.filter fun cell =>
      indexIn definition size cell = indexIn definition size value) ↔ value ∈ order :=
    ⟨fun hmem => (List.mem_filter.mp hmem).1, Lists.mem_chain⟩
  rw [List.nil_append, List.erase_filter] at hchain'
  refine ⟨storage', links', ?_, ⟨storage', rfl, hbytes ▸ hroom,
    hlists.replace hchain' (fun cell hcell hne => ?_) hheads fun other hne => ?_⟩, htable.size,
    fun cell hcell => htable.lt cell (List.mem_of_mem_erase hcell)⟩
  · rw [List.getLastD_nil, ← hchain.start_eq_headD] at hloop
    rw [hloop, decide_eq_decide.mpr hmem]
  · refine hlinks cell fun hthere => hne ?_
    exact of_decide_eq_true (List.mem_filter.mp hthere).2
  · rw [← List.erase_filter, List.erase_of_not_mem]
    intro hthere
    exact hne (of_decide_eq_true (List.mem_filter.mp hthere).2).symm

/-- `Remove` takes the value out and then looks at the size of the table. -/
theorem Arranged.remove_of_mem (htable : Arranged definition table order) (autoExpand : Bool)
    (allocation : Option (ℕ → ℕ)) (hmem : value ∈ order) :
    ∃ table', table.remove definition autoExpand allocation value = .ok (true, table') ∧
      table'.curTableSize = (if autoExpand = true ∧ table.Shrinks ∧ allocation.isSome then
        table.curTableSize / 2 else table.curTableSize) ∧
      table'.curItemCount = sub32 table.curItemCount 1 ∧
      Arranged definition table'
        (if autoExpand = true ∧ table.Shrinks ∧ allocation.isSome then
          rearranged definition table.curTableSize (order.erase value) else order.erase value) := by
  obtain ⟨size, count, tableStorage, links⟩ := table
  obtain ⟨storage, hstorage, hroom, hlists⟩ := htable.lists
  obtain ⟨k, hlow, hhigh, hsize⟩ := htable.size
  simp only at hstorage hroom hlists hsize
  subst hstorage
  have hread := Buffer.read_of_lt hroom (hlists.index_lt value)
  obtain ⟨storage', links', hloop, hremoved⟩ := htable.removeLoop value
  rw [indexIn] at hread hloop
  rw [decide_eq_true hmem] at hloop
  have hcounted := hremoved.congr_count (sub32 count 1)
  simp only [BHashTable.remove, BHashTable.readStorage, hread, hloop, ok_bind, Bool.not_true,
    Bool.false_eq_true, if_false]
  by_cases hshrink : autoExpand = true ∧ (BHashTable.mk size count (some storage) links).Shrinks
  · have hlarge : 2 ^ 3 < 2 ^ k := hsize ▸ hshrink.2.1
    have hk : 3 < k := (Nat.pow_lt_pow_iff_right (by decide)).mp hlarge
    have hhalf : size / 2 = 2 ^ (k - 1) := by
      rw [hsize, ← Nat.pow_div (by omega) (by decide), pow_one]
    obtain ⟨table', hresize, hsize', hcount', htable'⟩ :=
      hcounted.tryResize (show 3 ≤ k - 1 by omega) (by omega) allocation
    have hresized : (autoExpand = true ∧ (BHashTable.mk size count (some storage) links).Shrinks ∧
        allocation.isSome = true) ↔ allocation.isSome = true := by tauto
    simp only [hresized]
    rw [← hhalf] at hresize hsize'
    refine ⟨table', ?_, hsize', hcount', htable'⟩
    simp only [BHashTable.Shrinks] at hshrink
    rw [if_pos hshrink, hresize, ok_bind]
  · have hstays : ¬ (autoExpand = true ∧
        (BHashTable.mk size count (some storage) links).Shrinks ∧ allocation.isSome = true) := by
      tauto
    rw [if_neg hstays, if_neg hstays]
    refine ⟨⟨size, sub32 count 1, some storage', links'⟩, ?_, rfl, rfl, hcounted⟩
    simp only [BHashTable.Shrinks] at hshrink
    rw [if_neg hshrink]

theorem Arranged.remove_of_notMem (htable : Arranged definition table order) (autoExpand : Bool)
    (allocation : Option (ℕ → ℕ)) (hmem : value ∉ order) :
    ∃ table', table.remove definition autoExpand allocation value = .ok (false, table') ∧
      table'.curTableSize = table.curTableSize ∧ table'.curItemCount = table.curItemCount ∧
      Arranged definition table' order := by
  obtain ⟨size, count, tableStorage, links⟩ := table
  obtain ⟨storage, hstorage, hroom, hlists⟩ := htable.lists
  simp only at hstorage hroom hlists
  subst hstorage
  have hread := Buffer.read_of_lt hroom (hlists.index_lt value)
  obtain ⟨storage', links', hloop, hremoved⟩ := htable.removeLoop value
  rw [indexIn] at hread hloop
  rw [decide_eq_false hmem] at hloop
  rw [List.erase_of_not_mem hmem] at hremoved
  refine ⟨⟨size, count, some storage', links'⟩, ?_, rfl, rfl, hremoved⟩
  simp only [BHashTable.remove, BHashTable.readStorage, hread, hloop, ok_bind, Bool.not_false,
    if_true]

end GeexOS.DataStructures
