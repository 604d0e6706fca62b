import GeexOS.Kernel.Dictionary

/-!
# Runs of the dictionary

`Lookup` and `Remove` take the first pair with the key from its chain, which is
the newest one as long as no resize turns around a chain with two pairs of one
key.
-/

namespace GeexOS.DataStructures

open GeexOS.Words
open GeexOS.Halting
open GeexOS.Linked
open GeexOS.Buckets

variable {Key Value : Type} [DecidableEq Key]

namespace Dictionary

/-- The pairs that were inserted and not removed, the newest first. -/
def contents (dictionary : Dictionary Key Value) : List (KeyValuePair Key Value) :=
  dictionary.allocated.map dictionary.pairs

/-- The pair at this address has the key. -/
def hasKey (dictionary : Dictionary Key Value) (key : Key) (pair : ℕ) : Bool :=
  decide ((dictionary.pairs pair).key = key)

/-- The chains list the pairs in this order. -/
structure Filled (hashKey : Key → ℕ) (dictionary : Dictionary Key Value) (order : List ℕ) :
    Prop where
  arranged : Arranged (dictionary.definition hashKey) dictionary.hashTable order
  length_le : order.length ≤ dictionary.hashTable.curItemCount
  count_le : ∃ k ≤ 29, dictionary.hashTable.curTableSize = 2 ^ k ∧
    dictionary.hashTable.curItemCount ≤ 2 ^ 24 + k

/-- The table lists the allocated pairs in this order, or has no array yet. -/
structure Keeps (hashKey : Key → ℕ) (dictionary : Dictionary Key Value) (order : List ℕ) :
    Prop where
  table : (Unsized dictionary.hashTable ∧ order = []) ∨ Filled hashKey dictionary order
  perm : order.Perm dictionary.allocated

variable {hashKey : Key → ℕ} {dictionary : Dictionary Key Value} {order : List ℕ}
variable {key : Key} {value : Value} {pair : ℕ} {contents : ℕ → ℕ}

theorem Keeps.nodup (hkeeps : Keeps hashKey dictionary order) : order.Nodup := by
  rcases hkeeps.table with ⟨_, rfl⟩ | hfilled
  · exact List.nodup_nil
  · exact hfilled.arranged.nodup

theorem Keeps.lookup (hkeeps : Keeps hashKey dictionary order) (key : Key) :
    dictionary.hashTable.lookup (dictionary.definition hashKey) key =
      .ok ((order.find? (dictionary.hasKey key)).getD 0) := by
  rcases hkeeps.table with ⟨hunsized, rfl⟩ | hfilled
  · exact if_pos hunsized.size
  · exact hfilled.arranged.lookup key

theorem Keeps.ne_zero (hkeeps : Keeps hashKey dictionary order) (hmem : pair ∈ order) :
    pair ≠ 0 := by
  rcases hkeeps.table with ⟨_, rfl⟩ | hfilled
  · cases hmem
  · exact hfilled.arranged.ne_zero hmem

/-- The thresholds are products of 32 bits. -/
theorem lt_of_not_grows {table : BHashTable} (hgrows : ¬ table.Grows) :
    table.curItemCount < 2 ^ 24 := by
  rw [BHashTable.Grows, Nat.not_le] at hgrows
  have hlt := u32_lt (table.curTableSize * 200)
  omega

theorem lt_of_shrinks {table : BHashTable} (hshrinks : table.Shrinks) :
    sub32 table.curItemCount 1 < 2 ^ 24 := by
  have hless := hshrinks.2
  have hlt := u32_lt (table.curTableSize * 50)
  omega

theorem Filled.insert (hfilled : Filled hashKey dictionary order) (hpair : pair ≠ 0)
    (hlt : pair < 2 ^ 32) (hnew : pair ∉ order) (contents : ℕ → ℕ) (key : Key) (value : Value)
    (hfits : dictionary.hashTable.Grows → dictionary.hashTable.curTableSize ≠ 2 ^ 29) :
    ∃ dictionary' order', dictionary.insert hashKey pair (some contents) key value =
        .ok (true, dictionary') ∧
      dictionary'.allocated = pair :: dictionary.allocated ∧
      dictionary'.pairs = Function.update dictionary.pairs pair ⟨key, value⟩ ∧
      Filled hashKey dictionary' (pair :: order') ∧ order'.Perm order ∧
      (dictionary.hashTable.Grows → ∀ key, order'.filter (dictionary'.hasKey key) =
        (order.filter (dictionary'.hasKey key)).reverse) ∧
      (¬ dictionary.hashTable.Grows → order' = order) := by
  obtain ⟨k, hk, hsize, hbound⟩ := hfilled.count_le
  have harranged : Arranged ((dictionary.newPair pair key value).definition hashKey)
      dictionary.hashTable order := hfilled.arranged.congr_definition fun other hmem => by
    have hother : Function.update dictionary.pairs pair ⟨key, value⟩ other =
        dictionary.pairs other :=
      Function.update_of_ne (ne_of_mem_of_not_mem hmem hnew) _ _
    exact congrArg (fun pair => hashKey (KeyValuePair.key pair)) hother
  have hlarge : dictionary.hashTable.curTableSize ≠ 2 ^ 29 := by
    intro hlarge
    refine hfits ?_ hlarge
    rw [BHashTable.Grows, hlarge]
    exact Nat.zero_le _
  have hfits' : true = true → dictionary.hashTable.curTableSize = 2 ^ 29 →
      some contents = none := fun _ heq => absurd heq hlarge
  have hcounts : u32 (dictionary.hashTable.curItemCount + 1) =
      dictionary.hashTable.curItemCount + 1 := u32_of_lt (by omega)
  obtain ⟨table', hinsert, hsize', hcount', htable'⟩ := harranged.insert hpair hlt hnew hfits'
  rw [hcounts] at hcount'
  have hcall : dictionary.insert hashKey pair (some contents) key value =
      .ok (true, { dictionary.newPair pair key value with hashTable := table' }) := by
    simp only [Dictionary.insert]
    rw [show (dictionary.newPair pair key value).hashTable = dictionary.hashTable from rfl,
      hinsert, ok_bind]
  have hlength := hfilled.length_le
  by_cases hgrows : dictionary.hashTable.Grows
  · have hresized : true = true ∧ dictionary.hashTable.Grows ∧
        (some contents).isSome = true := ⟨rfl, hgrows, rfl⟩
    rw [if_pos hresized] at hsize' htable'
    have hperm := harranged.rearranged_perm order
    have hk' : k < 29 := Nat.lt_of_le_of_ne hk fun heq => hlarge (heq ▸ hsize)
    refine ⟨_, _, hcall, rfl, rfl, ⟨htable', ?_, k + 1, hk', ?_, ?_⟩, hperm, fun _ key' => ?_,
      fun hsmall => absurd hgrows hsmall⟩
    · rw [List.length_cons, hperm.length_eq]
      exact (Nat.succ_le_succ hlength).trans hcount'.ge
    · exact hsize'.trans (by rw [hsize, pow_succ, Nat.mul_comm])
    · exact hcount'.le.trans (by omega)
    · refine harranged.filter_rearranged order (hashKey key') fun cell hcell => ?_
      exact congrArg hashKey (of_decide_eq_true hcell)
  · have hstays : ¬ (true = true ∧ dictionary.hashTable.Grows ∧
        (some contents).isSome = true) := fun hresized => hgrows hresized.2.1
    rw [if_neg hstays] at hsize' htable'
    have hless := lt_of_not_grows hgrows
    refine ⟨_, order, hcall, rfl, rfl, ⟨htable', ?_, k, hk, hsize'.trans hsize, ?_⟩,
      List.Perm.refl order, fun hlarge => absurd hlarge hgrows, fun _ => rfl⟩
    · exact (Nat.succ_le_succ hlength).trans hcount'.ge
    · exact hcount'.le.trans (by omega)

/-- `Insert` puts the pair before the others, which a resize turns around. -/
theorem Keeps.insert (hkeeps : Keeps hashKey dictionary order) (hpair : pair ≠ 0)
    (hlt : pair < 2 ^ 32) (hnew : pair ∉ dictionary.allocated) (contents : ℕ → ℕ) (key : Key)
    (value : Value)
    (hfits : dictionary.hashTable.Grows → dictionary.hashTable.curTableSize ≠ 2 ^ 29) :
    ∃ dictionary' order', dictionary.insert hashKey pair (some contents) key value =
        .ok (true, dictionary') ∧
      dictionary'.allocated = pair :: dictionary.allocated ∧
      dictionary'.pairs = Function.update dictionary.pairs pair ⟨key, value⟩ ∧
      Keeps hashKey dictionary' (pair :: order') ∧
      (dictionary.hashTable.Grows → ∀ key, order'.filter (dictionary'.hasKey key) =
        (order.filter (dictionary'.hasKey key)).reverse) ∧
      (¬ dictionary.hashTable.Grows → order' = order) := by
  rcases hkeeps.table with ⟨hunsized, rfl⟩ | hfilled
  · obtain ⟨table', hinsert, hsize, hcount, htable'⟩ := hunsized.insertArranged
      ((dictionary.newPair pair key value).definition hashKey) true hpair hlt contents
    refine ⟨{ dictionary.newPair pair key value with hashTable := table' }, [], ?_, rfl, rfl,
      ⟨Or.inr ⟨htable', hcount.ge, 3, by decide, hsize, hcount.le.trans (by decide)⟩, ?_⟩,
      fun _ _ => rfl, fun _ => rfl⟩
    · simp only [Dictionary.insert]
      rw [show (dictionary.newPair pair key value).hashTable = dictionary.hashTable from rfl,
        hinsert, ok_bind]
    · exact hkeeps.perm.cons pair
  · have hnew' : pair ∉ order := fun hmem => hnew (hkeeps.perm.mem_iff.mp hmem)
    obtain ⟨dictionary', order', hcall, hallocated, hpairs, hfilled', hperm, hturned, hsame⟩ :=
      hfilled.insert hpair hlt hnew' contents key value hfits
    refine ⟨dictionary', order', hcall, hallocated, hpairs, ⟨Or.inr hfilled', ?_⟩, hturned, hsame⟩
    rw [hallocated]
    exact (hperm.trans hkeeps.perm).cons pair

/-- `Remove` takes out the first pair with the key; a resize turns the others around. -/
theorem Keeps.remove (hkeeps : Keeps hashKey dictionary order) (contents : ℕ → ℕ)
    (hfind : order.find? (dictionary.hasKey key) = some pair) :
    ∃ dictionary' order', dictionary.remove hashKey (some contents) key =
        .ok (true, dictionary') ∧
      dictionary'.allocated = dictionary.allocated.erase pair ∧
      dictionary'.pairs = dictionary.pairs ∧ Keeps hashKey dictionary' order' ∧
      (dictionary.hashTable.Shrinks → ∀ key, order'.filter (dictionary.hasKey key) =
        ((order.erase pair).filter (dictionary.hasKey key)).reverse) ∧
      (¬ dictionary.hashTable.Shrinks → order' = order.erase pair) := by
  have hmem := List.mem_of_find?_eq_some hfind
  have hlookup := hkeeps.lookup key
  rw [hfind, Option.getD_some] at hlookup
  have hfilled : Filled hashKey dictionary order := hkeeps.table.resolve_left fun hunsized => by
    rw [hunsized.2] at hmem
    cases hmem
  obtain ⟨k, hk, hsize, hbound⟩ := hfilled.count_le
  obtain ⟨table', hremove, hsize', hcount', htable'⟩ :=
    hfilled.arranged.remove_of_mem true (some contents) hmem
  have hlength := hfilled.length_le
  have hpos := List.length_pos_of_mem hmem
  have herase := List.length_erase_of_mem hmem
  have hcounts : sub32 dictionary.hashTable.curItemCount 1 =
      dictionary.hashTable.curItemCount - 1 := sub32_of_le (by omega) (by omega)
  have hcall : dictionary.remove hashKey (some contents) key =
      .ok (true, { dictionary with
        hashTable := table', allocated := dictionary.allocated.erase pair }) := by
    simp only [Dictionary.remove, hlookup, ok_bind, if_neg (hkeeps.ne_zero hmem), hremove,
      deletePair, if_pos (hkeeps.perm.mem_iff.mp hmem)]
  have hrest : (order.erase pair).Perm (dictionary.allocated.erase pair) :=
    hkeeps.perm.erase pair
  by_cases hshrinks : dictionary.hashTable.Shrinks
  · have hresized : true = true ∧ dictionary.hashTable.Shrinks ∧
        (some contents).isSome = true := ⟨rfl, hshrinks, rfl⟩
    rw [if_pos hresized] at hsize' htable'
    have hperm := hfilled.arranged.rearranged_perm (order.erase pair)
    have hless := lt_of_shrinks hshrinks
    have hk' : 3 < k := by
      have hlarge : 2 ^ 3 < 2 ^ k := hsize ▸ hshrinks.1
      exact (Nat.pow_lt_pow_iff_right (by decide)).mp hlarge
    have hhalf : dictionary.hashTable.curTableSize / 2 = 2 ^ (k - 1) := by
      rw [hsize, ← Nat.pow_div (by omega) (by decide), pow_one]
    refine ⟨_, _, hcall, rfl, rfl, ⟨Or.inr ⟨htable', ?_, k - 1, by omega, hsize'.trans hhalf, ?_⟩,
      hperm.trans hrest⟩, fun _ key' => ?_, fun hlarge => absurd hshrinks hlarge⟩
    · rw [hperm.length_eq]
      simp only [hcount', hcounts]
      omega
    · exact hcount'.le.trans (by omega)
    · refine hfilled.arranged.filter_rearranged _ (hashKey key') fun cell hcell => ?_
      exact congrArg hashKey (of_decide_eq_true hcell)
  · have hstays : ¬ (true = true ∧ dictionary.hashTable.Shrinks ∧
        (some contents).isSome = true) := fun hresized => hshrinks hresized.2.1
    rw [if_neg hstays] at hsize' htable'
    refine ⟨_, _, hcall, rfl, rfl, ⟨Or.inr ⟨htable', ?_, k, hk, hsize'.trans hsize, ?_⟩, hrest⟩,
      fun hsmall => absurd hsmall hshrinks, fun _ => rfl⟩
    · simp only [hcount', hcounts]
      omega
    · simp only [hcount', hcounts]
      omega

theorem Keeps.remove_of_none (hkeeps : Keeps hashKey dictionary order)
    (allocation : Option (ℕ → ℕ)) (hfind : order.find? (dictionary.hasKey key) = none) :
    dictionary.remove hashKey allocation key = .ok (false, dictionary) := by
  have hlookup := hkeeps.lookup key
  rw [hfind, Option.getD_none] at hlookup
  simp only [Dictionary.remove, hlookup, ok_bind, if_true]

omit [DecidableEq Key] in
theorem deleteLoop_of_chain {cells : List ℕ} {itemList fuel : ℕ}
    (hchain : Chain dictionary.hashTable.links 0 itemList cells)
    (hperm : cells.Perm dictionary.allocated) (hfuel : cells.length < fuel) :
    deleteLoop fuel itemList dictionary = .ok { dictionary with allocated := [] } := by
  induction cells generalizing itemList fuel dictionary with
  | nil =>
      obtain ⟨fuel, rfl⟩ := Nat.exists_eq_succ_of_ne_zero (Nat.ne_zero_of_lt hfuel)
      have hnone : dictionary.allocated = [] := hperm.nil_eq.symm
      rw [deleteLoop, if_pos (chain_nil.mp hchain), ← hnone]
  | cons cell rest ih =>
      obtain ⟨fuel, rfl⟩ := Nat.exists_eq_succ_of_ne_zero (Nat.ne_zero_of_lt hfuel)
      obtain ⟨rfl, hcell, hrest⟩ := chain_cons.mp hchain
      obtain ⟨hmem, hperm'⟩ := List.cons_perm_iff_perm_erase.mp hperm
      have hdelete : dictionary.deletePair itemList =
          .ok { dictionary with allocated := dictionary.allocated.erase itemList } := if_pos hmem
      rw [deleteLoop, if_neg hcell, hdelete, ok_bind]
      exact ih hrest hperm' (Nat.lt_of_succ_lt_succ hfuel)

/-- `Clear` deletes every pair. -/
theorem Keeps.clear (hkeeps : Keeps hashKey dictionary order) :
    ∃ dictionary', dictionary.clear = .ok dictionary' ∧ dictionary'.allocated = [] ∧
      dictionary'.pairs = dictionary.pairs ∧ Keeps hashKey dictionary' [] := by
  by_cases hcount : dictionary.hashTable.curItemCount = 0
  · have horder : order = [] := by
      rcases hkeeps.table with ⟨_, hnone⟩ | hfilled
      · exact hnone
      · exact List.eq_nil_of_length_eq_zero (Nat.le_zero.mp (hfilled.length_le.trans hcount.le))
    subst horder
    have hnil : Chain dictionary.hashTable.links 0 0 [] := chain_nil.mpr rfl
    have hdelete := deleteLoop_of_chain hnil hkeeps.perm
      (length_lt_addresses hnil fun cell hmem => absurd hmem List.not_mem_nil)
    have hnone : dictionary.allocated = [] := hkeeps.perm.nil_eq.symm
    have hsame : { dictionary with allocated := [] } = dictionary := by rw [← hnone]
    refine ⟨dictionary, ?_, hnone, rfl, hkeeps⟩
    rw [hsame] at hdelete
    simp only [Dictionary.clear, BHashTable.clear, if_pos hcount, ok_bind]
    exact hdelete
  · have hfilled : Filled hashKey dictionary order := hkeeps.table.resolve_left
      fun hunsized => hcount hunsized.1.count
    obtain ⟨itemList, table', hclear, hchain, hsize, hcount', htable⟩ :=
      hfilled.arranged.clear hcount true
    have hgrouped : (grouped dictionary.hashTable.curTableSize
        (indexIn (dictionary.definition hashKey) dictionary.hashTable.curTableSize) order).Perm
        order := grouped_perm hfilled.arranged.index_lt
    have hlength := length_lt_addresses (hchain rfl) fun cell hmem =>
      hfilled.arranged.lt cell (hgrouped.mem_iff.mp hmem)
    have hdelete : deleteLoop addresses itemList { dictionary with hashTable := table' } =
        .ok { dictionary with hashTable := table', allocated := [] } :=
      deleteLoop_of_chain (hchain rfl) (hgrouped.trans hkeeps.perm) hlength
    obtain ⟨k, hk, hpow, hbound⟩ := hfilled.count_le
    refine ⟨{ dictionary with hashTable := table', allocated := [] }, ?_, rfl, rfl,
      Or.inr ⟨htable, Nat.zero_le _, k, hk, hsize.trans hpow, hcount'.le.trans hbound⟩,
      List.Perm.nil⟩
    rw [Dictionary.clear, hclear, ok_bind]
    exact hdelete

/-! ## The newest pair of a key -/

/-- The chains list the pairs of each key with the newest first. -/
def NewestFirst (hashKey : Key → ℕ) (dictionary : Dictionary Key Value) : Prop :=
  ∃ order, Keeps hashKey dictionary order ∧ ∀ key,
    order.filter (dictionary.hasKey key) = dictionary.allocated.filter (dictionary.hasKey key)

/-- No two pairs have one key. -/
def KeysDiffer (pairs : List (KeyValuePair Key Value)) : Prop :=
  (pairs.map KeyValuePair.key).Nodup

instance (pairs : List (KeyValuePair Key Value)) : Decidable (KeysDiffer pairs) :=
  inferInstanceAs (Decidable (List.Nodup _))

theorem reverse_filter_of_keysDiffer {cells : List ℕ}
    (hdiffer : KeysDiffer (cells.map dictionary.pairs)) (key : Key) :
    (cells.filter (dictionary.hasKey key)).reverse = cells.filter (dictionary.hasKey key) := by
  induction cells with
  | nil => rfl
  | cons cell rest ih =>
      rw [KeysDiffer, List.map_cons, List.map_cons, List.nodup_cons] at hdiffer
      cases hcell : dictionary.hasKey key cell with
      | false =>
          rw [List.filter_cons_of_neg (by simp [hcell])]
          exact ih hdiffer.2
      | true =>
          have hnone : rest.filter (dictionary.hasKey key) = [] := by
            rw [List.filter_eq_nil_iff]
            intro other hmem hother
            have hsame : (dictionary.pairs other).key = (dictionary.pairs cell).key :=
              (of_decide_eq_true hother).trans (of_decide_eq_true hcell).symm
            refine hdiffer.1 (hsame ▸ List.mem_map_of_mem (List.mem_map_of_mem hmem))
          rw [List.filter_cons_of_pos hcell, hnone]
          rfl

theorem find_eq_of_filter_eq {left right : List ℕ} {keep : ℕ → Bool}
    (hfilter : left.filter keep = right.filter keep) : left.find? keep = right.find? keep := by
  rw [← List.head?_filter, hfilter, List.head?_filter]

theorem find_contents (dictionary : Dictionary Key Value) (key : Key) :
    dictionary.contents.find? (fun pair => decide (pair.key = key)) =
      (dictionary.allocated.find? (dictionary.hasKey key)).map dictionary.pairs := by
  rw [contents, List.find?_map]
  rfl

theorem NewestFirst.lookup (hnewest : NewestFirst hashKey dictionary)
    {found : KeyValuePair Key Value}
    (hfind : dictionary.contents.find? (fun pair => decide (pair.key = key)) = some found) :
    dictionary.lookup hashKey key = .ok found.value := by
  obtain ⟨order, hkeeps, horder⟩ := hnewest
  rw [find_contents, Option.map_eq_some_iff] at hfind
  obtain ⟨pair, hpair, rfl⟩ := hfind
  rw [← find_eq_of_filter_eq (horder key)] at hpair
  have hlookup := hkeeps.lookup key
  rw [hpair, Option.getD_some] at hlookup
  have hmem := List.mem_of_find?_eq_some hpair
  simp only [Dictionary.lookup, hlookup, ok_bind, if_neg (hkeeps.ne_zero hmem)]

theorem eraseP_eq_erase {cells : List ℕ} {keep : ℕ → Bool} (hfind : cells.find? keep = some pair) :
    cells.eraseP keep = cells.erase pair := by
  induction cells with
  | nil => cases hfind
  | cons cell rest ih =>
      cases hkeep : keep cell with
      | true =>
          rw [List.find?_cons_of_pos hkeep, Option.some.injEq] at hfind
          rw [List.eraseP_cons_of_pos hkeep, hfind, List.erase_cons_head]
      | false =>
          have hneg : ¬ keep cell = true := by simp [hkeep]
          have hne : ¬ (cell == pair) = true := fun heq => by
            have hpair := List.find?_some hfind
            rw [← eq_of_beq heq] at hpair
            exact hneg hpair
          rw [List.find?_cons_of_neg hneg] at hfind
          rw [List.eraseP_cons_of_neg hneg, List.erase_cons_tail hne, ih hfind]

end Dictionary

/-! ## Sequences of calls -/

/-- The calls that change a dictionary, with the memory that each of them gets. -/
inductive DictionaryCall (Key Value : Type) where
  | insert (pair : ℕ) (memory : ℕ → ℕ) (key : Key) (value : Value)
  | remove (memory : ℕ → ℕ) (key : Key)
  | clear

namespace DictionaryCall

/-- What a call means: `Insert` shadows older pairs, `Remove` uncovers them. -/
def apply (contents : List (KeyValuePair Key Value)) :
    DictionaryCall Key Value → List (KeyValuePair Key Value)
  | insert _ _ key value => ⟨key, value⟩ :: contents
  | remove _ key => contents.eraseP fun pair => pair.key = key
  | clear => []

def perform (hashKey : Key → ℕ) (dictionary : Dictionary Key Value) :
    DictionaryCall Key Value → Outcome (Dictionary Key Value)
  | insert pair memory key value => do
      let (_, dictionary) ← dictionary.insert hashKey pair (some memory) key value
      .ok dictionary
  | remove memory key => do
      let (_, dictionary) ← dictionary.remove hashKey (some memory) key
      .ok dictionary
  | clear => dictionary.clear

/-- `new` returns memory that is not in use. -/
def Fresh (dictionary : Dictionary Key Value) : DictionaryCall Key Value → Prop
  | insert pair _ _ _ => pair ≠ 0 ∧ pair < 2 ^ 32 ∧ pair ∉ dictionary.allocated
  | _ => True

/-- No array is replaced that holds two pairs of one key, nor one of `2^29` pointers
by a larger one. -/
def KeepsOrder (dictionary : Dictionary Key Value) : DictionaryCall Key Value → Prop
  | insert _ _ _ _ => dictionary.hashTable.Grows →
      dictionary.hashTable.curTableSize ≠ 2 ^ 29 ∧ Dictionary.KeysDiffer dictionary.contents
  | remove memory key => (∃ pair ∈ dictionary.contents, pair.key = key) →
      dictionary.hashTable.Shrinks →
        Dictionary.KeysDiffer ((remove memory key).apply dictionary.contents)
  | clear => True

end DictionaryCall

namespace Dictionary

open DictionaryCall

variable {dictionary' : Dictionary Key Value}

theorem NewestFirst.insert (hnewest : NewestFirst hashKey dictionary) (pair : ℕ)
    (memory : ℕ → ℕ) (key : Key) (value : Value)
    (hfresh : Fresh dictionary (.insert pair memory key value))
    (hkeeps : KeepsOrder dictionary (.insert pair memory key value)) :
    ∃ dictionary', dictionary.insert hashKey pair (some memory) key value =
        .ok (true, dictionary') ∧ NewestFirst hashKey dictionary' ∧
      dictionary'.contents = ⟨key, value⟩ :: dictionary.contents := by
  obtain ⟨order, htable, horder⟩ := hnewest
  obtain ⟨hpair, hlt, hnew⟩ := hfresh
  obtain ⟨dictionary', order', hcall, hallocated, hpairs, htable', hturned, hsame⟩ :=
    htable.insert hpair hlt hnew memory key value fun hgrows => (hkeeps hgrows).1
  have hold : ∀ other ∈ dictionary.allocated,
      dictionary'.pairs other = dictionary.pairs other := fun other hmem => by
    rw [hpairs]
    exact Function.update_of_ne (ne_of_mem_of_not_mem hmem hnew) _ _
  have hfilter : ∀ cells : List ℕ, (∀ other ∈ cells, other ∈ dictionary.allocated) → ∀ key,
      cells.filter (dictionary'.hasKey key) = cells.filter (dictionary.hasKey key) :=
    fun cells hcells key => List.filter_congr fun other hmem => by
      rw [hasKey, hasKey, hold other (hcells other hmem)]
  have horder' : ∀ key, order.filter (dictionary'.hasKey key) =
      dictionary.allocated.filter (dictionary'.hasKey key) := fun key => by
    rw [hfilter order (fun other hmem => htable.perm.mem_iff.mp hmem) key, horder key,
      hfilter _ (fun _ hmem => hmem) key]
  refine ⟨dictionary', hcall, ⟨pair :: order', htable', fun key' => ?_⟩, ?_⟩
  · have hrest : order'.filter (dictionary'.hasKey key') =
        dictionary.allocated.filter (dictionary'.hasKey key') := by
      by_cases hgrows : dictionary.hashTable.Grows
      · rw [hturned hgrows, horder' key', hfilter _ (fun _ hmem => hmem) key']
        exact reverse_filter_of_keysDiffer (hkeeps hgrows).2 key'
      · rw [hsame hgrows, horder' key']
    rw [hallocated, List.filter_cons, List.filter_cons, hrest]
  · rw [contents, hallocated, List.map_cons, List.map_congr_left hold, hpairs,
      Function.update_self]
    rfl

theorem NewestFirst.remove (hnewest : NewestFirst hashKey dictionary) (memory : ℕ → ℕ)
    (key : Key) (hkeeps : KeepsOrder dictionary (.remove memory key)) :
    ∃ found dictionary', dictionary.remove hashKey (some memory) key =
        .ok (found, dictionary') ∧ NewestFirst hashKey dictionary' ∧
      dictionary'.contents = (DictionaryCall.remove memory key).apply dictionary.contents := by
  have hcontents : (DictionaryCall.remove memory key).apply dictionary.contents =
      (dictionary.allocated.eraseP (dictionary.hasKey key)).map dictionary.pairs := by
    rw [apply, contents, List.eraseP_map]
    rfl
  obtain ⟨order, htable, horder⟩ := hnewest
  have hfinds := find_eq_of_filter_eq (horder key)
  rw [hcontents]
  cases hfind : dictionary.allocated.find? (dictionary.hasKey key) with
  | none =>
      have hall := List.find?_eq_none.mp hfind
      rw [List.eraseP_of_forall_not hall]
      exact ⟨false, dictionary, htable.remove_of_none _ (hfinds.trans hfind),
        ⟨order, htable, horder⟩, rfl⟩
  | some pair =>
      obtain ⟨dictionary', order', hcall, hallocated, hpairs, htable', hturned, hsame⟩ :=
        htable.remove memory (hfinds.trans hfind)
      rw [eraseP_eq_erase hfind] at hcontents ⊢
      have hkeys : ∀ key, dictionary'.hasKey key = dictionary.hasKey key := fun key => by
        funext other
        rw [hasKey, hasKey, hpairs]
      have hrest : ∀ key', (order.erase pair).filter (dictionary.hasKey key') =
          (dictionary.allocated.erase pair).filter (dictionary.hasKey key') := fun key' => by
        rw [← List.erase_filter, horder key', List.erase_filter]
      refine ⟨true, dictionary', hcall, ⟨order', htable', fun key' => ?_⟩, ?_⟩
      · rw [hallocated, hkeys]
        by_cases hshrinks : dictionary.hashTable.Shrinks
        · have hdiffer : KeysDiffer
              ((DictionaryCall.remove memory key).apply dictionary.contents) := by
            refine hkeeps ⟨dictionary.pairs pair, ?_, ?_⟩ hshrinks
            · exact List.mem_map_of_mem (List.mem_of_find?_eq_some hfind)
            · have hkey : dictionary.hasKey key pair = true := List.find?_some hfind
              exact of_decide_eq_true hkey
          rw [hcontents] at hdiffer
          rw [hturned hshrinks, hrest key']
          exact reverse_filter_of_keysDiffer hdiffer key'
        · rw [hsame hshrinks, hrest key']
      · rw [contents, hallocated, hpairs]

/-- One call. -/
theorem NewestFirst.perform (hnewest : NewestFirst hashKey dictionary)
    (call : DictionaryCall Key Value) (hfresh : Fresh dictionary call)
    (hkeeps : KeepsOrder dictionary call) :
    ∃ dictionary', call.perform hashKey dictionary = .ok dictionary' ∧
      NewestFirst hashKey dictionary' ∧
      dictionary'.contents = call.apply dictionary.contents := by
  cases call with
  | insert pair memory key value =>
      obtain ⟨dictionary', hcall, hafter⟩ :=
        hnewest.insert pair memory key value hfresh hkeeps
      exact ⟨dictionary', by rw [DictionaryCall.perform, hcall, ok_bind], hafter⟩
  | remove memory key =>
      obtain ⟨_, dictionary', hcall, hafter⟩ := hnewest.remove memory key hkeeps
      exact ⟨dictionary', by rw [DictionaryCall.perform, hcall, ok_bind], hafter⟩
  | clear =>
      obtain ⟨order, htable, _⟩ := hnewest
      obtain ⟨dictionary', hcall, hallocated, _, htable'⟩ := htable.clear
      refine ⟨dictionary', hcall, ⟨[], htable', fun key => by rw [hallocated]⟩, ?_⟩
      rw [contents, hallocated]
      rfl

theorem newestFirst_new (hashKey : Key → ℕ) (links : ℕ → ℕ)
    (pairs : ℕ → KeyValuePair Key Value) : NewestFirst hashKey (.new links pairs) :=
  ⟨[], ⟨Or.inl ⟨⟨rfl, rfl, rfl⟩, rfl⟩, List.Perm.nil⟩, fun _ => rfl⟩

end Dictionary

/-- One call after the other. -/
def performAll (hashKey : Key → ℕ) : List (DictionaryCall Key Value) → Dictionary Key Value →
    Outcome (Dictionary Key Value)
  | [], dictionary => .ok dictionary
  | call :: calls, dictionary => do
      let dictionary ← call.perform hashKey dictionary
      performAll hashKey calls dictionary

/-- Every call meets the condition in the state it is made in. -/
def Throughout (hashKey : Key → ℕ)
    (condition : Dictionary Key Value → DictionaryCall Key Value → Prop) :
    List (DictionaryCall Key Value) → Dictionary Key Value → Prop
  | [], _ => True
  | call :: calls, dictionary => condition dictionary call ∧
      match call.perform hashKey dictionary with
      | .ok dictionary => Throughout hashKey condition calls dictionary
      | .error _ => True

theorem Dictionary.NewestFirst.performAll {hashKey : Key → ℕ}
    {dictionary : Dictionary Key Value} (hnewest : NewestFirst hashKey dictionary)
    (calls : List (DictionaryCall Key Value))
    (hfresh : Throughout hashKey DictionaryCall.Fresh calls dictionary)
    (hkeeps : Throughout hashKey DictionaryCall.KeepsOrder calls dictionary) :
    ∃ dictionary', DataStructures.performAll hashKey calls dictionary = .ok dictionary' ∧
      NewestFirst hashKey dictionary' ∧
      dictionary'.contents = calls.foldl DictionaryCall.apply dictionary.contents := by
  induction calls generalizing dictionary with
  | nil => exact ⟨dictionary, rfl, hnewest, rfl⟩
  | cons call calls ih =>
      obtain ⟨middle, hcall, hmiddle, hcontents⟩ := hnewest.perform call hfresh.1 hkeeps.1
      have hfresh' := hfresh.2
      have hkeeps' := hkeeps.2
      simp only [hcall] at hfresh' hkeeps'
      obtain ⟨dictionary', hcalls, hlast, hcontents'⟩ := ih hmiddle hfresh' hkeeps'
      refine ⟨dictionary', ?_, hlast, ?_⟩
      · rw [DataStructures.performAll, hcall, ok_bind, hcalls]
      · rw [hcontents', hcontents, List.foldl_cons]

/-- The dictionary after the calls looks up what they mean. -/
def LooksUpNewest (hashKey : Key → ℕ) (calls : List (DictionaryCall Key Value))
    (dictionary : Dictionary Key Value) : Prop :=
  ∃ dictionary', performAll hashKey calls dictionary = .ok dictionary' ∧
    ∀ key pair, (calls.foldl DictionaryCall.apply []).find? (fun pair => pair.key = key) =
      some pair → dictionary'.lookup hashKey key = .ok pair.value

/-- `Lookup` returns the value of the newest pair after all calls that do not turn
the pairs of a key around. -/
theorem looksUpNewest_of_keepsOrder (hashKey : Key → ℕ) (links : ℕ → ℕ)
    (pairs : ℕ → KeyValuePair Key Value) (calls : List (DictionaryCall Key Value))
    (hfresh : Throughout hashKey DictionaryCall.Fresh calls (.new links pairs))
    (hkeeps : Throughout hashKey DictionaryCall.KeepsOrder calls (.new links pairs)) :
    LooksUpNewest hashKey calls (.new links pairs) := by
  obtain ⟨dictionary', hcalls, hnewest, hcontents⟩ :=
    (Dictionary.newestFirst_new hashKey links pairs).performAll calls hfresh hkeeps
  refine ⟨dictionary', hcalls, fun key pair hfind => hnewest.lookup ?_⟩
  rw [hcontents]
  exact hfind

def emptyDictionary : Dictionary ℕ ℕ := .new (fun _ => 0) fun _ => ⟨0, 0⟩

/-- Seven keys, a second pair of the key 0, and its removal. -/
def sevenKeys : List (DictionaryCall ℕ ℕ) :=
  [.insert 4 (fun _ => 0) 0 1, .insert 8 (fun _ => 0) 1 2, .insert 12 (fun _ => 0) 2 3,
    .insert 16 (fun _ => 0) 3 4, .insert 20 (fun _ => 0) 4 5, .insert 24 (fun _ => 0) 5 6,
    .insert 28 (fun _ => 0) 6 7, .insert 32 (fun _ => 0) 0 8, .remove (fun _ => 0) 0]

/-- The seventh `Insert` finds six pairs of different keys. -/
theorem looksUpNewest_of_keepsOrder_sevenKeys :
    LooksUpNewest id sevenKeys emptyDictionary :=
  looksUpNewest_of_keepsOrder id _ _ sevenKeys
    ⟨⟨by decide, by decide, by decide⟩, ⟨by decide, by decide, by decide⟩,
      ⟨by decide, by decide, by decide⟩, ⟨by decide, by decide, by decide⟩,
      ⟨by decide, by decide, by decide⟩, ⟨by decide, by decide, by decide⟩,
      ⟨by decide, by decide, by decide⟩, ⟨by decide, by decide, by decide⟩, trivial, trivial⟩
    ⟨fun _ => ⟨by decide, by decide⟩, fun _ => ⟨by decide, by decide⟩,
      fun _ => ⟨by decide, by decide⟩, fun _ => ⟨by decide, by decide⟩,
      fun _ => ⟨by decide, by decide⟩, fun _ => ⟨by decide, by decide⟩,
      fun _ => ⟨by decide, by decide⟩, fun hgrows => absurd hgrows (by decide),
      fun _ hshrinks => absurd hshrinks (by decide), trivial⟩

/-- Seven pairs of the key 0, which has the CRC 0, and the newest of them removed. -/
def sevenPairs : List (DictionaryCall ℕ ℕ) :=
  [.insert 4 (fun _ => 0) 0 1, .insert 8 (fun _ => 0) 0 2, .insert 12 (fun _ => 0) 0 3,
    .insert 16 (fun _ => 0) 0 4, .insert 20 (fun _ => 0) 0 5, .insert 24 (fun _ => 0) 0 6,
    .insert 28 (fun _ => 0) 0 7, .remove (fun _ => 0) 0]

theorem sevenPairs_fresh :
    Throughout (fun _ => 0) DictionaryCall.Fresh sevenPairs emptyDictionary :=
  ⟨⟨by decide, by decide, by decide⟩, ⟨by decide, by decide, by decide⟩,
    ⟨by decide, by decide, by decide⟩, ⟨by decide, by decide, by decide⟩,
    ⟨by decide, by decide, by decide⟩, ⟨by decide, by decide, by decide⟩,
    ⟨by decide, by decide, by decide⟩, trivial, trivial⟩

/-- The seventh `Insert` doubles the array and turns the chain of the six older pairs
around, so that `Lookup` finds the oldest of them after the `Remove`. -/
theorem not_looksUpNewest :
    ¬ ∀ calls : List (DictionaryCall ℕ ℕ),
      Throughout (fun _ => 0) DictionaryCall.Fresh calls emptyDictionary →
        LooksUpNewest (fun _ => 0) calls emptyDictionary := by
  intro hall
  obtain ⟨dictionary, hcalls, hlookup⟩ := hall sevenPairs sevenPairs_fresh
  have hnewest : dictionary.lookup (fun _ => 0) 0 = .ok 6 := hlookup 0 ⟨0, 6⟩ rfl
  have holdest : (performAll (fun _ => 0) sevenPairs emptyDictionary >>= fun dictionary =>
      dictionary.lookup (fun _ => 0) 0) = .ok 1 := rfl
  rw [hcalls, ok_bind, hnewest] at holdest
  cases holdest

end GeexOS.DataStructures
