import GeexOS.Kernel.HashTableOrder

/-!
# The kernel's dictionary

A dictionary wraps a hash table that expands by itself and does not look for
duplicates.  It allocates a pair for every `Insert` and deletes it when it takes
it out.
-/

namespace GeexOS.DataStructures

open GeexOS.Words
open GeexOS.Halting
open GeexOS.Linked
open GeexOS.Buckets

namespace BHashTable

/-- `*nextPointer = element`.  The pointer is to the result at first (0 here), and
to the link of an element after that. -/
def setNext (nextPointer element result : ℕ) (links : ℕ → ℕ) : ℕ × (ℕ → ℕ) :=
  if nextPointer = 0 then (element, links)
  else (result, Function.update links nextPointer element)

/-- The inner loop of `Clear`: `nextPointer` ends at the last link of the chain. -/
def lastLink (links : ℕ → ℕ) : (fuel nextPointer element : ℕ) → Outcome ℕ
  | 0, _, _ => .error .diverges
  | fuel + 1, nextPointer, element =>
      if element = 0 then .ok nextPointer
      else lastLink links fuel element (links element)

/-- The outer loop of `Clear`, over the buckets from `i` on. -/
def joinBuckets (storage : Buffer) : (remaining i nextPointer result : ℕ) → (ℕ → ℕ) →
    Outcome (ℕ × (ℕ → ℕ))
  | 0, _, _, result, links => .ok (result, links)
  | remaining + 1, i, nextPointer, result, links => do
      let element ← storage.read i
      if element = 0 then joinBuckets storage remaining (i + 1) nextPointer result links
      else do
        let (result, links) := setNext nextPointer element result links
        let nextPointer ← lastLink links addresses nextPointer element
        joinBuckets storage remaining (i + 1) nextPointer result links

/-- `Clear`.  The number of elements stays as it was. -/
def clear (table : BHashTable) (returnElements : Bool) : Outcome (ℕ × BHashTable) :=
  if table.curItemCount = 0 then .ok (0, table)
  else
    match table.storage with
    | none => .error .fault
    | some storage => do
        let (result, links) ←
          if returnElements then joinBuckets storage table.curTableSize 0 0 0 table.links
          else .ok (0, table.links)
        let storage ← storage.clear (u32 (4 * table.curTableSize) / 4)
        .ok (result, { table with storage := some storage, links := links })

end BHashTable

/-! ## Clearing a table -/

section Clearing

variable {Key : Type} {links : ℕ → ℕ} {storage : Buffer} {order front cells : List ℕ}
variable {definition : HashTableDefinition Key} {table : BHashTable}
variable {element result nextPointer fuel : ℕ}

theorem lastLink_of_chain (hchain : Chain links 0 element cells) (hfuel : cells.length < fuel) :
    BHashTable.lastLink links fuel nextPointer element = .ok (cells.getLastD nextPointer) := by
  induction cells generalizing element nextPointer fuel with
  | nil =>
      obtain ⟨fuel, rfl⟩ := Nat.exists_eq_succ_of_ne_zero (Nat.ne_zero_of_lt hfuel)
      exact if_pos (chain_nil.mp hchain)
  | cons cell rest ih =>
      obtain ⟨fuel, rfl⟩ := Nat.exists_eq_succ_of_ne_zero (Nat.ne_zero_of_lt hfuel)
      obtain ⟨rfl, hcell, hrest⟩ := chain_cons.mp hchain
      rw [BHashTable.lastLink, if_neg hcell, ih hrest (Nat.lt_of_succ_lt_succ hfuel),
        List.getLastD_cons]

/-- Appending a chain to the result changes a link of the result only. -/
theorem setNext_of_chain (hfront : Chain links 0 result front)
    (hcells : Chain links 0 element cells) (hapart : ∀ cell ∈ cells, cell ∉ front) :
    ∃ result' links', BHashTable.setNext (front.getLastD 0) element result links =
        (result', links') ∧ Chain links' 0 result' (front ++ cells) ∧
      ∀ other, other ∉ front → links' other = links other := by
  rcases List.eq_nil_or_concat' front with rfl | ⟨init, last, rfl⟩
  · exact ⟨element, links, rfl, hcells, fun _ _ => rfl⟩
  · have hlast : last ≠ 0 := hfront.ne_stop (by simp)
    have hinit : last ∉ init := by
      have hnodup := hfront.nodup
      rw [List.nodup_append] at hnodup
      exact fun hmem => hnodup.2.2 last hmem last (List.mem_singleton_self last) rfl
    refine ⟨result, Function.update links last element, ?_, ?_, fun other hother => ?_⟩
    · rw [List.getLastD_concat, BHashTable.setNext, if_neg hlast]
    · rw [List.append_assoc, List.singleton_append]
      refine hfront.append hcells (Function.update_self ..) fun other hmem => ?_
      refine Function.update_of_ne (fun heq => ?_) _ _
      subst heq
      rcases List.mem_append.mp hmem with hmem | hmem
      · exact hinit hmem
      · exact hapart other hmem (by simp)
    · exact Function.update_of_ne (fun heq => hother (by simp [heq])) _ _

/-- The result is the chain of the buckets before `i`, the others are untouched. -/
theorem joinBuckets_of_chains {chains : ℕ → List ℕ} {remaining i : ℕ}
    (hold : ∀ bucket, i ≤ bucket → bucket < i + remaining →
      Chain links 0 (storage.cells bucket) (chains bucket) ∧
        ∀ cell ∈ chains bucket, cell ∉ front ∧ cell < 2 ^ 32)
    (hapart : ∀ bucket other, bucket ≠ other → ∀ cell ∈ chains bucket, cell ∉ chains other)
    (hfront : Chain links 0 result front) (hstorage : 4 * (i + remaining) ≤ storage.bytes) :
    ∃ result' links', BHashTable.joinBuckets storage remaining i (front.getLastD 0) result links =
        .ok (result', links') ∧
      Chain links' 0 result' (front ++ (List.range' i remaining).flatMap chains) := by
  induction remaining generalizing i front result links with
  | zero =>
      refine ⟨result, links, rfl, ?_⟩
      rwa [List.range'_zero, List.flatMap_nil, List.append_nil]
  | succ remaining ih =>
      obtain ⟨hchain, hcells⟩ := hold i le_rfl (by omega)
      have hread := Buffer.read_of_lt hstorage (show i < i + (remaining + 1) by omega)
      have hshift : i + 1 + remaining = i + (remaining + 1) := by omega
      rw [BHashTable.joinBuckets, hread, ok_bind, List.range'_succ, List.flatMap_cons]
      by_cases hempty : storage.cells i = 0
      · have hnil : chains i = [] := hchain.start_eq_stop_iff.mp hempty
        rw [if_pos hempty, hnil, List.nil_append]
        refine ih (fun bucket hlow hhigh => hold bucket (by omega) (by omega)) hfront ?_
        exact hshift ▸ hstorage
      · obtain ⟨result', links', hset, hjoined, hlinks⟩ :=
          setNext_of_chain hfront hchain fun cell hmem => (hcells cell hmem).1
        have hchain' : Chain links' 0 (storage.cells i) (chains i) :=
          hchain.congr fun cell hmem => hlinks cell (hcells cell hmem).1
        have hlast : BHashTable.lastLink links' addresses (front.getLastD 0) (storage.cells i) =
            .ok ((front ++ chains i).getLastD 0) := by
          rw [lastLink_of_chain hchain' (length_lt_addresses hchain' fun cell hmem =>
            (hcells cell hmem).2)]
          cases chains i using List.reverseRecOn with
          | nil => rw [List.append_nil, List.getLastD_nil]
          | append_singleton init last =>
              rw [← List.append_assoc, List.getLastD_concat, List.getLastD_concat]
        have hlater : ∀ bucket, i + 1 ≤ bucket → bucket < i + 1 + remaining →
            Chain links' 0 (storage.cells bucket) (chains bucket) ∧
              ∀ cell ∈ chains bucket, cell ∉ front ++ chains i ∧ cell < 2 ^ 32 := by
          intro bucket hlow hhigh
          obtain ⟨hothers, hcells'⟩ := hold bucket (by omega) (by omega)
          refine ⟨hothers.congr fun cell hmem => hlinks cell (hcells' cell hmem).1,
            fun cell hmem => ⟨?_, (hcells' cell hmem).2⟩⟩
          rw [List.mem_append, not_or]
          exact ⟨(hcells' cell hmem).1, hapart bucket i (by omega) cell hmem⟩
        obtain ⟨result'', links'', hrest, hwhole⟩ := ih hlater hjoined (hshift ▸ hstorage)
        refine ⟨result'', links'', ?_, ?_⟩
        · rw [if_neg hempty, hset]
          simp only [hlast, ok_bind, hrest]
        · rwa [List.append_assoc] at hwhole

/-- The chain of all elements if it is asked for, and a table without any. -/
theorem Arranged.clear (htable : Arranged definition table order)
    (hcount : table.curItemCount ≠ 0) (returnElements : Bool) :
    ∃ result table', table.clear returnElements = .ok (result, table') ∧
      (returnElements = true → Chain table'.links 0 result
        (grouped table.curTableSize (indexIn definition table.curTableSize) order)) ∧
      table'.curTableSize = table.curTableSize ∧
      table'.curItemCount = table.curItemCount ∧ Arranged definition table' [] := by
  obtain ⟨storage, hstorage, hroom, hlists⟩ := htable.lists
  obtain ⟨k, hlow, hhigh, hsize⟩ := htable.size
  obtain ⟨cleared, hclear, hsame, hzero⟩ := Buffer.clear_of_le hroom
  have hpow : 2 ^ k ≤ 2 ^ 29 := Nat.pow_le_pow_right (by decide) hhigh
  have hcells : u32 (4 * table.curTableSize) / 4 = table.curTableSize := by
    rw [hsize, u32_of_lt (by omega), Nat.mul_div_cancel_left _ (by decide)]
  have hempty : ∀ links, Arranged definition
      { table with storage := some cleared, links := links } [] := fun links =>
    ⟨⟨cleared, rfl, hroom.trans_eq hsame.symm, Lists.empty htable.index_lt hzero⟩, htable.size,
      by simp⟩
  cases returnElements with
  | false =>
      refine ⟨0, { table with storage := some cleared }, ?_,
        fun hreturn => absurd hreturn Bool.false_ne_true, rfl, rfl, hempty table.links⟩
      simp only [BHashTable.clear, if_neg hcount, hstorage, Bool.false_eq_true, if_false, ok_bind,
        hcells, hclear]
  | true =>
      have hroom' : 4 * (0 + table.curTableSize) ≤ storage.bytes := by rwa [Nat.zero_add]
      have hnil : Chain table.links 0 0 [] := chain_nil.mpr rfl
      obtain ⟨result, links', hjoin, hchain⟩ := joinBuckets_of_chains
        (chains_of_lists hlists htable.lt) chains_apart hnil hroom'
      rw [List.getLastD_nil] at hjoin
      rw [List.nil_append, ← List.range_eq_range'] at hchain
      refine ⟨result, { table with storage := some cleared, links := links' }, ?_,
        fun _ => hchain, rfl, rfl, hempty links'⟩
      simp only [BHashTable.clear, if_neg hcount, hstorage, if_true, hjoin, ok_bind, hcells,
        hclear]

end Clearing

/-! ## The dictionary -/

/-- A pair; its `next` is with the links of the hash table. -/
structure KeyValuePair (Key Value : Type) where
  key : Key
  value : Value

/-- The dictionary, the memory of the pairs, and the pairs that `new` returned
and `delete` did not get, the newest first. -/
structure Dictionary (Key Value : Type) where
  hashTable : BHashTable
  pairs : ℕ → KeyValuePair Key Value
  allocated : List ℕ

variable {Key Value : Type} [DecidableEq Key]

/-- The source hashes the bytes of the key with `CRC32`; nothing below depends on
which function of the key it is. -/
def KeyValuePair.hashTableDefinition (hashKey : Key → ℕ) (pairs : ℕ → KeyValuePair Key Value) :
    HashTableDefinition Key where
  hashKey := hashKey
  keyOf := fun value => (pairs value).key
  compare := fun key value => decide ((pairs value).key = key)
  hashKey_of_compare := fun _ _ hcompare => congrArg hashKey (of_decide_eq_true hcompare).symm

namespace Dictionary

variable (hashKey : Key → ℕ)

def definition (dictionary : Dictionary Key Value) : HashTableDefinition Key :=
  KeyValuePair.hashTableDefinition hashKey dictionary.pairs

/-- The constructor, with whatever the memory contains. -/
def new (links : ℕ → ℕ) (pairs : ℕ → KeyValuePair Key Value) : Dictionary Key Value :=
  ⟨.new links, pairs, []⟩

/-- `new KeyValuePair(key, value)`, at the address `pair`. -/
def newPair (dictionary : Dictionary Key Value) (pair : ℕ) (key : Key) (value : Value) :
    Dictionary Key Value :=
  { dictionary with
    pairs := Function.update dictionary.pairs pair ⟨key, value⟩
    allocated := pair :: dictionary.allocated }

/-- `delete`. -/
def deletePair (dictionary : Dictionary Key Value) (pair : ℕ) :
    Outcome (Dictionary Key Value) :=
  if pair ∈ dictionary.allocated then
    .ok { dictionary with allocated := dictionary.allocated.erase pair }
  else .error .fault

def lookup (dictionary : Dictionary Key Value) (key : Key) : Outcome Value := do
  let slot ← dictionary.hashTable.lookup (dictionary.definition hashKey) key
  if slot = 0 then .error .fault else .ok (dictionary.pairs slot).value

/-- `Insert`, with the address of the new pair and the memory for a larger array. -/
def insert (dictionary : Dictionary Key Value) (pair : ℕ) (allocation : Option (ℕ → ℕ))
    (key : Key) (value : Value) : Outcome (Bool × Dictionary Key Value) := do
  let dictionary := dictionary.newPair pair key value
  let (ret, hashTable) ←
    dictionary.hashTable.insert (dictionary.definition hashKey) true allocation pair
  .ok (ret, { dictionary with hashTable := hashTable })

def remove (dictionary : Dictionary Key Value) (allocation : Option (ℕ → ℕ)) (key : Key) :
    Outcome (Bool × Dictionary Key Value) := do
  let toRemove ← dictionary.hashTable.lookup (dictionary.definition hashKey) key
  if toRemove = 0 then .ok (false, dictionary)
  else do
    let (ret, hashTable) ←
      dictionary.hashTable.remove (dictionary.definition hashKey) true allocation toRemove
    let dictionary ← { dictionary with hashTable := hashTable }.deletePair toRemove
    .ok (ret, dictionary)

/-- The loop of `Clear`. -/
def deleteLoop : (fuel itemList : ℕ) → Dictionary Key Value → Outcome (Dictionary Key Value)
  | 0, _, _ => .error .diverges
  | fuel + 1, itemList, dictionary =>
      if itemList = 0 then .ok dictionary
      else do
        let next := dictionary.hashTable.links itemList
        let dictionary ← dictionary.deletePair itemList
        deleteLoop fuel next dictionary

def clear (dictionary : Dictionary Key Value) : Outcome (Dictionary Key Value) := do
  let (itemList, hashTable) ← dictionary.hashTable.clear true
  deleteLoop addresses itemList { dictionary with hashTable := hashTable }

end Dictionary

end GeexOS.DataStructures
