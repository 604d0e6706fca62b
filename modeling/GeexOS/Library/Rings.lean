import Mathlib.Data.List.Chain
import Mathlib.Data.List.Nodup
import Mathlib.Logic.Function.Basic
import Mathlib.Tactic.Common

/-!
# Rings of doubly linked cells

A ring has a head, and going along the links from the head meets its entries and the head
again.  All changes of rings come down to one: two cells become neighbours.  Several rings
share one memory of links as long as they have no cell in common.
-/

namespace GeexOS.Rings

variable {α : Type*}

structure Links (α : Type*) where
  next : α → α
  prev : α → α

/-- The links of both cells agree. -/
def Joined (links : Links α) (left right : α) : Prop :=
  links.next left = right ∧ links.prev right = left

structure Ring (links : Links α) (head : α) (entries : List α) : Prop where
  chain : (head :: (entries ++ [head])).IsChain (Joined links)
  nodup : (head :: entries).Nodup

/-- The entries of each head. -/
abbrev Sequences (α : Type*) := α → Option (List α)

/-- The cell is the head or an entry of a ring. -/
def Member (lists : Sequences α) (cell : α) : Prop :=
  ∃ head entries, lists head = some entries ∧ cell ∈ head :: entries

/-- The links make up the rings of all heads. -/
structure Represents (links : Links α) (lists : Sequences α) : Prop where
  ring : ∀ head entries, lists head = some entries → Ring links head entries
  apart : ∀ left right leftEntries rightEntries cell, lists left = some leftEntries →
    lists right = some rightEntries → cell ∈ left :: leftEntries →
    cell ∈ right :: rightEntries → left = right

variable {links links' : Links α} {lists : Sequences α} {head other left right new : α}
variable {entries cells front back : List α}

/-! ## Chains of neighbours -/

theorem chain_congr (hchain : cells.IsChain (Joined links))
    (hnext : ∀ cell ∈ cells.dropLast, links'.next cell = links.next cell)
    (hprev : ∀ cell ∈ cells.tail, links'.prev cell = links.prev cell) :
    cells.IsChain (Joined links') := by
  induction cells with
  | nil => exact .nil
  | cons first rest ih =>
      cases rest with
      | nil => exact .singleton _
      | cons second rest =>
          obtain ⟨hjoined, hrest⟩ := List.isChain_cons_cons.mp hchain
          rw [List.dropLast_cons_cons] at hnext
          refine List.isChain_cons_cons.mpr ⟨⟨?_, ?_⟩, ih hrest ?_ ?_⟩
          · rw [hnext first List.mem_cons_self]
            exact hjoined.1
          · rw [hprev second List.mem_cons_self]
            exact hjoined.2
          · exact fun cell hmem => hnext cell (List.mem_cons_of_mem _ hmem)
          · exact fun cell hmem => hprev cell (List.mem_cons_of_mem _ hmem)

theorem Ring.congr (hring : Ring links head entries)
    (hnext : ∀ cell ∈ head :: entries, links'.next cell = links.next cell)
    (hprev : ∀ cell ∈ head :: entries, links'.prev cell = links.prev cell) :
    Ring links' head entries := by
  refine ⟨chain_congr hring.chain (fun cell hmem => hnext cell ?_) fun cell hmem =>
    hprev cell ?_, hring.nodup⟩
  · rwa [← List.cons_append, List.dropLast_concat] at hmem
  · rw [List.tail_cons, List.mem_append, List.mem_singleton] at hmem
    exact List.mem_cons.mpr hmem.symm

theorem chain_next_mem {cell : α} (hchain : cells.IsChain (Joined links))
    (hmem : cell ∈ cells.dropLast) : links.next cell ∈ cells.tail := by
  induction cells with
  | nil => exact absurd hmem List.not_mem_nil
  | cons first rest ih =>
      cases rest with
      | nil => exact absurd hmem List.not_mem_nil
      | cons second rest =>
          obtain ⟨hjoined, hrest⟩ := List.isChain_cons_cons.mp hchain
          rw [List.dropLast_cons_cons, List.mem_cons] at hmem
          rcases hmem with rfl | hmem
          · rw [hjoined.1]
            exact List.mem_cons_self
          · exact List.mem_cons_of_mem _ (ih hrest hmem)

theorem chain_prev_mem {cell : α} (hchain : cells.IsChain (Joined links))
    (hmem : cell ∈ cells.tail) : links.prev cell ∈ cells.dropLast := by
  induction cells with
  | nil => exact absurd hmem List.not_mem_nil
  | cons first rest ih =>
      cases rest with
      | nil => exact absurd hmem List.not_mem_nil
      | cons second rest =>
          obtain ⟨hjoined, hrest⟩ := List.isChain_cons_cons.mp hchain
          rw [List.dropLast_cons_cons]
          rcases List.mem_cons.mp hmem with rfl | hmem
          · rw [hjoined.2]
            exact List.mem_cons_self
          · exact List.mem_cons_of_mem _ (ih hrest hmem)

theorem Ring.next_mem {cell : α} (hring : Ring links head entries) (hmem : cell ∈ head :: entries) :
    links.next cell ∈ head :: entries := by
  have hnext : links.next cell ∈ (head :: (entries ++ [head])).tail :=
    chain_next_mem hring.chain (by rwa [← List.cons_append, List.dropLast_concat])
  rw [List.tail_cons, List.mem_append, List.mem_singleton] at hnext
  exact List.mem_cons.mpr hnext.symm

theorem Ring.prev_mem {cell : α} (hring : Ring links head entries) (hmem : cell ∈ head :: entries) :
    links.prev cell ∈ head :: entries := by
  have hprev : links.prev cell ∈ (head :: (entries ++ [head])).dropLast :=
    chain_prev_mem hring.chain (by
      rw [List.tail_cons, List.mem_append, List.mem_singleton]
      exact (List.mem_cons.mp hmem).symm)
  rwa [← List.cons_append, List.dropLast_concat] at hprev

/-- The head's neighbours are the first and the last entry, or the head itself. -/
theorem Ring.next_head (hring : Ring links head entries) :
    links.next head = entries.headD head := by
  cases entries with
  | nil => exact (List.isChain_cons_cons.mp hring.chain).1.1
  | cons first rest => exact (List.isChain_cons_cons.mp hring.chain).1.1

theorem Ring.prev_head (hring : Ring links head entries) :
    links.prev head = entries.getLastD head := by
  have hchain := hring.chain
  induction entries using List.reverseRecOn with
  | nil => exact (List.isChain_cons_cons.mp hchain).1.2
  | append_singleton rest last _ =>
      rw [List.append_assoc, List.singleton_append, List.isChain_cons_append_cons_cons] at hchain
      rw [List.getLastD_concat]
      exact hchain.2.1.2

variable [DecidableEq α]

/-- Two cells become neighbours. -/
def join (left right : α) (links : Links α) : Links α where
  next := Function.update links.next left right
  prev := Function.update links.prev right left

theorem joined_join (left right : α) (links : Links α) :
    Joined (join left right links) left right :=
  ⟨Function.update_self .., Function.update_self ..⟩

theorem chain_join_of_notMem (hchain : cells.IsChain (Joined links))
    (hleft : left ∉ cells.dropLast) (hright : right ∉ cells.tail) :
    cells.IsChain (Joined (join left right links)) :=
  chain_congr hchain
    (fun _ hmem => Function.update_of_ne (ne_of_mem_of_not_mem hmem hleft) ..)
    fun _ hmem => Function.update_of_ne (ne_of_mem_of_not_mem hmem hright) ..

/-- Two chains become one. -/
theorem chain_join (hfront : (front ++ [left]).IsChain (Joined links))
    (hback : (right :: back).IsChain (Joined links))
    (hleft : left ∉ front) (hleftBack : left ∉ (right :: back).dropLast)
    (hrightFront : right ∉ (front ++ [left]).tail) (hright : right ∉ back) :
    (front ++ left :: right :: back).IsChain (Joined (join left right links)) := by
  rw [List.isChain_append_cons_cons]
  refine ⟨chain_join_of_notMem hfront ?_ hrightFront, joined_join left right links,
    chain_join_of_notMem hback hleftBack hright⟩
  rwa [List.dropLast_concat]

theorem Ring.join_of_notMem (hring : Ring links head entries) (hleft : left ∉ head :: entries)
    (hright : right ∉ head :: entries) : Ring (join left right links) head entries :=
  hring.congr
    (fun _ hmem => Function.update_of_ne (ne_of_mem_of_not_mem hmem hleft) ..)
    fun _ hmem => Function.update_of_ne (ne_of_mem_of_not_mem hmem hright) ..

/-- The two cells are neighbours, and neither of them has another neighbour on that side. -/
structure Seam (front : List α) (left right : α) (back : List α) : Prop where
  left_front : left ∉ front
  left_back : left ∉ (right :: back).dropLast
  right_front : right ∉ (front ++ [left]).tail
  right_back : right ∉ back

/-- A new cell between two neighbours. -/
theorem chain_insert (hchain : (front ++ left :: right :: back).IsChain (Joined links))
    (hseam : Seam front left right back) (hnew : new ∉ front ++ left :: right :: back) :
    (front ++ left :: new :: right :: back).IsChain
      (Joined (join left new (join new right links))) := by
  rw [List.isChain_append_cons_cons] at hchain
  obtain ⟨hfront, -, hback⟩ := hchain
  simp only [List.mem_append, List.mem_cons, not_or] at hnew
  obtain ⟨hnewFront, hnewLeft, hnewRight, hnewBack⟩ := hnew
  have hfront' : (front ++ [left]).IsChain (Joined (join new right links)) :=
    chain_join_of_notMem hfront (by rwa [List.dropLast_concat]) hseam.right_front
  have hback' : (new :: right :: back).IsChain (Joined (join new right links)) := by
    refine chain_join (.singleton _) hback List.not_mem_nil (fun hmem => ?_) List.not_mem_nil
      hseam.right_back
    rcases List.mem_cons.mp (List.dropLast_subset _ hmem) with heq | hmem
    · exact hnewRight heq
    · exact hnewBack hmem
  refine chain_join hfront' hback' hseam.left_front ?_ (fun hmem => ?_) ?_
  · rw [List.dropLast_cons_cons, List.mem_cons]
    rintro (heq | hmem)
    · exact hnewLeft heq.symm
    · exact hseam.left_back hmem
  · rcases List.mem_append.mp (List.mem_of_mem_tail hmem) with hmem | hmem
    · exact hnewFront hmem
    · exact hnewLeft (List.mem_singleton.mp hmem)
  · rw [List.mem_cons, not_or]
    exact ⟨hnewRight, hnewBack⟩

/-- The neighbours of a cell that is left out. -/
theorem chain_remove {cell : α}
    (hchain : (front ++ left :: cell :: right :: back).IsChain (Joined links))
    (hseam : Seam front left right back) :
    (front ++ left :: right :: back).IsChain (Joined (join left right links)) := by
  rw [List.isChain_append_cons_cons, List.isChain_cons_cons] at hchain
  obtain ⟨hfront, -, -, hback⟩ := hchain
  exact chain_join hfront hback hseam.left_front hseam.left_back hseam.right_front
    hseam.right_back

omit [DecidableEq α] in
/-- The place between two cells of a ring, which is written from the head to the head. -/
theorem seam_of_nodup (hdrop : (front ++ left :: right :: back).dropLast.Nodup)
    (htail : (front ++ left :: right :: back).tail.Nodup) : Seam front left right back := by
  rw [List.dropLast_append_cons, List.nodup_append] at hdrop
  obtain ⟨-, hleftBack, hapart⟩ := hdrop
  rw [List.dropLast_cons_cons, List.nodup_cons] at hleftBack
  refine ⟨fun hmem => ?_, hleftBack.1, fun hmem => ?_, ?_⟩
  · refine hapart left hmem left ?_ rfl
    rw [List.dropLast_cons_cons]
    exact List.mem_cons_self
  · cases front with
    | nil => exact List.not_mem_nil hmem
    | cons first rest =>
        rw [List.cons_append, List.tail_cons] at hmem htail
        rw [List.append_cons, List.nodup_append] at htail
        exact htail.2.2 right hmem right List.mem_cons_self rfl
  · cases front with
    | nil => exact (List.nodup_cons.mp htail).1
    | cons first rest =>
        rw [List.cons_append, List.tail_cons, List.append_cons, List.nodup_append] at htail
        exact (List.nodup_cons.mp htail.2.1).1

/-! ## Changes of one ring -/

omit [DecidableEq α] in
theorem Ring.seam (hring : Ring links head entries)
    (hcells : head :: (entries ++ [head]) = front ++ left :: right :: back) :
    Seam front left right back := by
  refine seam_of_nodup ?_ ?_ <;> rw [← hcells]
  · rw [← List.cons_append, List.dropLast_concat]
    exact hring.nodup
  · rw [List.tail_cons]
    exact (List.perm_append_singleton head entries).nodup_iff.mpr hring.nodup

/-- A new cell behind the head. -/
theorem Ring.insertFront (hring : Ring links head entries) (hnew : new ∉ head :: entries) :
    Ring (join head new (join new (links.next head) links)) head (new :: entries) := by
  obtain ⟨second, rest, hcells⟩ : ∃ second rest, entries ++ [head] = second :: rest := by
    cases entries with
    | nil => exact ⟨head, [], rfl⟩
    | cons first rest => exact ⟨first, rest ++ [head], rfl⟩
  have hwhole : head :: (entries ++ [head]) = [] ++ head :: second :: rest := by rw [hcells]; rfl
  have hchain := hring.chain
  rw [hwhole] at hchain
  have hsecond : links.next head = second := (List.isChain_cons_cons.mp hchain).1.1
  have hnotMem : new ∉ [] ++ head :: second :: rest := by
    rw [← hwhole, ← List.cons_append, List.mem_append, List.mem_singleton]
    rintro (hmem | heq)
    · exact hnew hmem
    · exact hnew (heq ▸ List.mem_cons_self)
  refine ⟨?_, ?_⟩
  · rw [hsecond, List.cons_append, hcells]
    exact chain_insert hchain (hring.seam hwhole) hnotMem
  · exact (List.Perm.swap new head entries).nodup_iff.mpr (List.nodup_cons.mpr ⟨hnew, hring.nodup⟩)

omit [DecidableEq α] in
/-- The last cell before the head comes round again. -/
theorem exists_last (head : α) (entries : List α) :
    ∃ front left, head :: entries = front ++ [left] :=
  ⟨(head :: entries).dropLast, (head :: entries).getLast (List.cons_ne_nil _ _),
    (List.dropLast_append_getLast _).symm⟩

/-- A new cell before the head. -/
theorem Ring.insertBack (hring : Ring links head entries) (hnew : new ∉ head :: entries) :
    Ring (join (links.prev head) new (join new head links)) head (entries ++ [new]) := by
  obtain ⟨front, left, hlast⟩ := exists_last head entries
  have hwhole : head :: (entries ++ [head]) = front ++ left :: [head] := by
    rw [← List.cons_append, hlast, List.append_assoc]
    rfl
  have hchain := hring.chain
  rw [hwhole] at hchain
  have hleft : links.prev head = left := ((List.isChain_append_cons_cons.mp hchain).2.1).2
  have hnotMem : new ∉ front ++ left :: [head] := by
    rw [← hwhole, ← List.cons_append, List.mem_append, List.mem_singleton]
    rintro (hmem | heq)
    · exact hnew hmem
    · exact hnew (heq ▸ List.mem_cons_self)
  refine ⟨?_, ?_⟩
  · have hcells : head :: (entries ++ [new] ++ [head]) = front ++ left :: new :: [head] := by
      rw [← List.cons_append, ← List.cons_append, hlast]
      simp
    rw [hleft, hcells]
    exact chain_insert hchain (hring.seam hwhole) hnotMem
  · rw [← List.cons_append]
    exact (List.perm_append_singleton new (head :: entries)).nodup_iff.mpr
      (List.nodup_cons.mpr ⟨hnew, hring.nodup⟩)

/-- An entry leaves the ring. -/
theorem Ring.remove {cell : α} (hring : Ring links head entries) (hcell : cell ∈ entries) :
    Ring (join (links.prev cell) (links.next cell) links) head (entries.erase cell) := by
  obtain ⟨before, after, rfl⟩ := List.append_of_mem hcell
  obtain ⟨front, left, hlast⟩ := exists_last head before
  obtain ⟨right, back, hfirst⟩ : ∃ right back, after ++ [head] = right :: back := by
    cases after with
    | nil => exact ⟨head, [], rfl⟩
    | cons first rest => exact ⟨first, rest ++ [head], rfl⟩
  have hnodup := hring.nodup
  have hentries := (List.nodup_cons.mp hnodup).2
  have hbefore : cell ∉ before := fun hmem =>
    (List.nodup_append.mp hentries).2.2 cell hmem cell List.mem_cons_self rfl
  have herase : (before ++ cell :: after).erase cell = before ++ after := by
    rw [List.erase_append_right _ hbefore, List.erase_cons_head]
  have hwhole : head :: (before ++ cell :: after ++ [head]) =
      front ++ left :: cell :: right :: back := by
    rw [← hfirst, ← List.cons_append, ← List.cons_append, hlast]
    simp
  have hrest : head :: (before ++ after ++ [head]) = front ++ left :: right :: back := by
    rw [← hfirst, ← List.cons_append, ← List.cons_append, hlast]
    simp
  have hchain := hring.chain
  rw [hwhole] at hchain
  obtain ⟨-, hleft, hmiddle⟩ := List.isChain_append_cons_cons.mp hchain
  have hright := (List.isChain_cons_cons.mp hmiddle).1
  have hkept : (head :: (before ++ after)).Nodup :=
    hnodup.sublist (((List.sublist_cons_self cell after).append_left before).cons_cons head)
  have hseam : Seam front left right back := by
    refine seam_of_nodup ?_ ?_ <;> rw [← hrest]
    · rw [← List.cons_append, List.dropLast_concat]
      exact hkept
    · rw [List.tail_cons]
      exact (List.perm_append_singleton head _).nodup_iff.mpr hkept
  rw [herase, hleft.2, hright.1]
  exact ⟨hrest ▸ chain_remove hchain hseam, hkept⟩

/-- The entries of another ring go behind the head. -/
theorem Ring.splice {first : α} {rest otherEntries : List α} (hring : Ring links head entries)
    (hother : Ring links other otherEntries) (hotherEntries : otherEntries = first :: rest)
    (hapart : ∀ cell ∈ head :: entries, cell ∉ other :: otherEntries) :
    Ring (join (links.prev other) (links.next head) (join head (links.next other) links)) head
      (otherEntries ++ entries) := by
  obtain ⟨front, last, hlast⟩ : ∃ front last, otherEntries = front ++ [last] := by
    rw [hotherEntries]
    exact exists_last first rest
  obtain ⟨second, back, hcells⟩ : ∃ second back, entries ++ [head] = second :: back := by
    cases entries with
    | nil => exact ⟨head, [], rfl⟩
    | cons first rest => exact ⟨first, rest ++ [head], rfl⟩
  have hmember : ∀ cell ∈ second :: back, cell ∉ otherEntries := by
    intro cell hcell
    rw [← hcells, List.mem_append, List.mem_singleton] at hcell
    exact fun hmem => hapart cell (List.mem_cons.mpr hcell.symm) (List.mem_cons_of_mem _ hmem)
  have hheadOther : head ∉ otherEntries := fun hmem =>
    hapart head List.mem_cons_self (List.mem_cons_of_mem _ hmem)
  have hnodup := (List.nodup_cons.mp hother.nodup).2
  have hdrop : (second :: back).dropLast = entries := by rw [← hcells, List.dropLast_concat]
  have hnodupBack : (second :: back).Nodup := by
    rw [← hcells]
    exact (List.perm_append_singleton head entries).nodup_iff.mpr hring.nodup
  have hchain := hring.chain
  rw [hcells] at hchain
  have hotherChain := hother.chain.tail
  rw [List.tail_cons] at hotherChain
  have hnextHead : links.next head = second := (List.isChain_cons_cons.mp hchain).1.1
  have hnextOther : links.next other = first := by rw [hother.next_head, hotherEntries]; rfl
  have hprevOther : links.prev other = last := by
    rw [hother.prev_head, hlast, List.getLastD_concat]
  rw [hnextHead, hnextOther, hprevOther]
  -- the other entries behind the head
  have hfront : (head :: otherEntries).IsChain (Joined (join head first links)) := by
    rw [hotherEntries] at hnodup hheadOther ⊢
    refine chain_join (.singleton _) ?_ List.not_mem_nil
      (fun hmem => hheadOther (List.dropLast_subset _ hmem)) List.not_mem_nil
      (List.nodup_cons.mp hnodup).1
    exact hotherEntries ▸ hotherChain.left_of_append
  have hback : (second :: back).IsChain (Joined (join head first links)) := by
    refine chain_join_of_notMem hchain.tail ?_ fun hmem => ?_
    · rw [hdrop]
      exact (List.nodup_cons.mp hring.nodup).1
    · exact hmember first (List.mem_of_mem_tail hmem)
        (hotherEntries ▸ List.mem_cons_self)
  refine ⟨?_, ?_⟩
  · have hwhole : head :: (otherEntries ++ entries ++ [head]) =
        head :: front ++ last :: second :: back := by
      rw [List.append_assoc, hcells, hlast]
      simp
    rw [hwhole]
    rw [hlast] at hfront hnodup
    obtain ⟨-, -, hlastFront⟩ := List.nodup_append.mp hnodup
    have hlastMem : last ∈ otherEntries := hlast ▸ List.mem_append_right _ List.mem_cons_self
    refine chain_join hfront hback ?_ ?_ (fun hmem => ?_) (List.nodup_cons.mp hnodupBack).1
    · rw [List.mem_cons]
      rintro (heq | hmem)
      · exact hheadOther (heq ▸ hlastMem)
      · exact hlastFront last hmem last List.mem_cons_self rfl
    · exact fun hmem => hmember last (List.dropLast_subset _ hmem) hlastMem
    · rw [List.cons_append, List.tail_cons, ← hlast] at hmem
      exact hmember second List.mem_cons_self hmem
  · have hentries := List.nodup_cons.mp hring.nodup
    refine List.nodup_cons.mpr ⟨?_, List.nodup_append.mpr ⟨hnodup, hentries.2, ?_⟩⟩
    · rw [List.mem_append]
      exact not_or.mpr ⟨hheadOther, hentries.1⟩
    · rintro cell hmem _ hentry rfl
      exact hapart cell (List.mem_cons_of_mem _ hentry) (List.mem_cons_of_mem _ hmem)

/-! ## Several rings -/

omit [DecidableEq α] in
theorem Represents.notMem_other {otherEntries : List α} {cell : α}
    (hlists : Represents links lists) (hhead : lists head = some entries)
    (hother : lists other = some otherEntries) (hne : other ≠ head)
    (hmem : cell ∈ head :: entries) : cell ∉ other :: otherEntries :=
  fun hcell => hne (hlists.apart other head otherEntries entries cell hother hhead hcell hmem)

/-- One ring is replaced by another one. -/
theorem Represents.update (hlists : Represents links lists) (hring : Ring links' head entries)
    (hothers : ∀ other ≠ head, ∀ otherEntries, lists other = some otherEntries →
      Ring links' other otherEntries ∧ ∀ cell ∈ head :: entries, cell ∉ other :: otherEntries) :
    Represents links' (Function.update lists head (some entries)) := by
  have hlookup : ∀ {found foundEntries},
      Function.update lists head (some entries) found = some foundEntries →
      (found = head ∧ foundEntries = entries) ∨
        (found ≠ head ∧ lists found = some foundEntries) := by
    intro found foundEntries hfound
    by_cases heq : found = head
    · subst heq
      rw [Function.update_self, Option.some.injEq] at hfound
      exact Or.inl ⟨rfl, hfound.symm⟩
    · rw [Function.update_of_ne heq] at hfound
      exact Or.inr ⟨heq, hfound⟩
  constructor
  · intro found foundEntries hfound
    rcases hlookup hfound with ⟨rfl, rfl⟩ | ⟨hne, hfound⟩
    · exact hring
    · exact (hothers found hne foundEntries hfound).1
  · intro left right leftEntries rightEntries cell hleft hright hcellLeft hcellRight
    rcases hlookup hleft with ⟨rfl, rfl⟩ | ⟨hneLeft, hleftOld⟩ <;>
      rcases hlookup hright with ⟨hrightEq, rfl⟩ | ⟨hneRight, hrightOld⟩
    · exact hrightEq.symm
    · exact absurd hcellRight ((hothers right hneRight rightEntries hrightOld).2 cell hcellLeft)
    · subst hrightEq
      exact absurd hcellLeft ((hothers left hneLeft leftEntries hleftOld).2 cell hcellRight)
    · exact hlists.apart left right leftEntries rightEntries cell hleftOld hrightOld hcellLeft
        hcellRight

/-- A head is given up. -/
theorem Represents.forget (hlists : Represents links lists) (head : α) :
    Represents links (Function.update lists head none) := by
  have hlookup : ∀ {found foundEntries},
      Function.update lists head none found = some foundEntries →
      lists found = some foundEntries := by
    intro found foundEntries hfound
    by_cases heq : found = head
    · subst heq
      rw [Function.update_self] at hfound
      cases hfound
    · rwa [Function.update_of_ne heq] at hfound
  exact ⟨fun found foundEntries hfound => hlists.ring found foundEntries (hlookup hfound),
    fun left right leftEntries rightEntries cell hleft hright =>
      hlists.apart left right leftEntries rightEntries cell (hlookup hleft) (hlookup hright)⟩

omit [DecidableEq α] in
/-- Links of cells outside of all rings do not matter. -/
theorem Represents.congr (hlists : Represents links lists)
    (hsame : ∀ cell, Member lists cell →
      links'.next cell = links.next cell ∧ links'.prev cell = links.prev cell) :
    Represents links' lists :=
  ⟨fun head entries hhead => (hlists.ring head entries hhead).congr
    (fun cell hmem => (hsame cell ⟨head, entries, hhead, hmem⟩).1)
    fun cell hmem => (hsame cell ⟨head, entries, hhead, hmem⟩).2, hlists.apart⟩

/-- A cell that is in no ring becomes a head without entries. -/
theorem Represents.init (hlists : Represents links lists) (hnew : ¬ Member lists new)
    (hsame : ∀ cell ≠ new,
      links'.next cell = links.next cell ∧ links'.prev cell = links.prev cell)
    (hself : Joined links' new new) :
    Represents links' (Function.update lists new (some [])) := by
  have hcongr : Represents links' lists := hlists.congr fun cell hmem =>
    hsame cell fun heq => hnew (heq ▸ hmem)
  refine hcongr.update ⟨?_, by simp⟩ fun other hne otherEntries hother =>
    ⟨hcongr.ring other otherEntries hother, fun cell hmem hcell => ?_⟩
  · exact List.isChain_cons_cons.mpr ⟨hself, .singleton _⟩
  · rw [List.mem_singleton] at hmem
    exact hnew ⟨other, otherEntries, hother, hmem ▸ hcell⟩

theorem Represents.insert {position : List α} (hlists : Represents links lists)
    (hhead : lists head = some entries) (hnew : ¬ Member lists new)
    (hleft : left ∈ head :: entries) (hright : right ∈ head :: entries)
    (hring : Ring (join left new (join new right links)) head position)
    (hposition : ∀ cell ∈ position, cell = new ∨ cell ∈ entries) :
    Represents (join left new (join new right links))
      (Function.update lists head (some position)) := by
  refine hlists.update hring fun other hne otherEntries hother => ⟨?_, fun cell hmem hcell => ?_⟩
  · have hnewOther : new ∉ other :: otherEntries := fun hmem =>
      hnew ⟨other, otherEntries, hother, hmem⟩
    exact ((hlists.ring other otherEntries hother).join_of_notMem hnewOther
      (hlists.notMem_other hhead hother hne hright)).join_of_notMem
      (hlists.notMem_other hhead hother hne hleft) hnewOther
  · rcases List.mem_cons.mp hmem with rfl | hmem
    · exact hlists.notMem_other hhead hother hne List.mem_cons_self hcell
    · rcases hposition cell hmem with rfl | hentry
      · exact hnew ⟨other, otherEntries, hother, hcell⟩
      · exact hlists.notMem_other hhead hother hne (List.mem_cons_of_mem _ hentry) hcell

theorem Represents.insertFront (hlists : Represents links lists)
    (hhead : lists head = some entries) (hnew : ¬ Member lists new) :
    Represents (join head new (join new (links.next head) links))
      (Function.update lists head (some (new :: entries))) := by
  have hring := hlists.ring head entries hhead
  exact hlists.insert hhead hnew List.mem_cons_self (hring.next_mem List.mem_cons_self)
    (hring.insertFront fun hmem => hnew ⟨head, entries, hhead, hmem⟩)
    fun cell hmem => List.mem_cons.mp hmem

theorem Represents.insertBack (hlists : Represents links lists)
    (hhead : lists head = some entries) (hnew : ¬ Member lists new) :
    Represents (join (links.prev head) new (join new head links))
      (Function.update lists head (some (entries ++ [new]))) := by
  have hring := hlists.ring head entries hhead
  refine hlists.insert hhead hnew (hring.prev_mem List.mem_cons_self) List.mem_cons_self
    (hring.insertBack fun hmem => hnew ⟨head, entries, hhead, hmem⟩) fun cell hmem => ?_
  rw [List.mem_append, List.mem_singleton] at hmem
  exact hmem.symm

/-- An entry leaves its ring and is then in none. -/
theorem Represents.remove {cell : α} (hlists : Represents links lists)
    (hhead : lists head = some entries) (hcell : cell ∈ entries) :
    Represents (join (links.prev cell) (links.next cell) links)
        (Function.update lists head (some (entries.erase cell))) ∧
      ¬ Member (Function.update lists head (some (entries.erase cell))) cell := by
  have hring := hlists.ring head entries hhead
  have hmember : cell ∈ head :: entries := List.mem_cons_of_mem _ hcell
  constructor
  · refine hlists.update (hring.remove hcell) fun other hne otherEntries hother =>
      ⟨?_, fun found hmem => ?_⟩
    · exact (hlists.ring other otherEntries hother).join_of_notMem
        (hlists.notMem_other hhead hother hne (hring.prev_mem hmember))
        (hlists.notMem_other hhead hother hne (hring.next_mem hmember))
    · refine hlists.notMem_other hhead hother hne ?_
      exact List.mem_cons.mpr ((List.mem_cons.mp hmem).imp_right List.mem_of_mem_erase)
  · rintro ⟨found, foundEntries, hfound, hmem⟩
    by_cases heq : found = head
    · subst heq
      rw [Function.update_self, Option.some.injEq] at hfound
      subst hfound
      have hnodup := List.nodup_cons.mp hring.nodup
      rcases List.mem_cons.mp hmem with rfl | hmem
      · exact hnodup.1 hcell
      · exact (List.Nodup.mem_erase_iff hnodup.2).mp hmem |>.1 rfl
    · rw [Function.update_of_ne heq] at hfound
      exact hlists.notMem_other hhead hfound heq hmember hmem

/-- The entries of one ring go to another one, and the head they had is given up. -/
theorem Represents.splice {first : α} {rest otherEntries : List α}
    (hlists : Represents links lists) (hhead : lists head = some entries)
    (hother : lists other = some otherEntries) (hne : other ≠ head)
    (hotherEntries : otherEntries = first :: rest) :
    Represents (join (links.prev other) (links.next head) (join head (links.next other) links))
        (Function.update (Function.update lists other none) head
          (some (otherEntries ++ entries))) ∧
      ¬ Member (Function.update (Function.update lists other none) head
        (some (otherEntries ++ entries))) other := by
  have hring := hlists.ring head entries hhead
  have hotherRing := hlists.ring other otherEntries hother
  have hapart : ∀ cell ∈ head :: entries, cell ∉ other :: otherEntries := fun cell hmem =>
    hlists.notMem_other hhead hother hne hmem
  have hthird : ∀ third ≠ head, ∀ thirdEntries,
      Function.update lists other none third = some thirdEntries →
      third ≠ other ∧ lists third = some thirdEntries := by
    intro third hthird thirdEntries hfound
    by_cases heq : third = other
    · subst heq
      rw [Function.update_self] at hfound
      cases hfound
    · rw [Function.update_of_ne heq] at hfound
      exact ⟨heq, hfound⟩
  constructor
  · refine (hlists.forget other).update (hring.splice hotherRing hotherEntries hapart)
      fun third hneThird thirdEntries hfound => ?_
    obtain ⟨hneOther, hlist⟩ := hthird third hneThird thirdEntries hfound
    constructor
    · exact ((hlists.ring third thirdEntries hlist).join_of_notMem
        (hlists.notMem_other hhead hlist hneThird List.mem_cons_self)
        (hlists.notMem_other hother hlist hneOther
          (hotherRing.next_mem List.mem_cons_self))).join_of_notMem
        (hlists.notMem_other hother hlist hneOther (hotherRing.prev_mem List.mem_cons_self))
        (hlists.notMem_other hhead hlist hneThird (hring.next_mem List.mem_cons_self))
    · intro cell hmem
      rcases List.mem_cons.mp hmem with rfl | hmem
      · exact hlists.notMem_other hhead hlist hneThird List.mem_cons_self
      · rcases List.mem_append.mp hmem with hmem | hmem
        · exact hlists.notMem_other hother hlist hneOther (List.mem_cons_of_mem _ hmem)
        · exact hlists.notMem_other hhead hlist hneThird (List.mem_cons_of_mem _ hmem)
  · rintro ⟨found, foundEntries, hfound, hmem⟩
    by_cases heq : found = head
    · subst heq
      rw [Function.update_self, Option.some.injEq] at hfound
      subst hfound
      rcases List.mem_cons.mp hmem with heq | hmem
      · exact hne heq
      · rcases List.mem_append.mp hmem with hmem | hmem
        · exact (List.nodup_cons.mp hotherRing.nodup).1 hmem
        · exact hapart other (List.mem_cons_of_mem _ hmem) List.mem_cons_self
    · rw [Function.update_of_ne heq] at hfound
      obtain ⟨hneOther, hlist⟩ := hthird found heq foundEntries hfound
      exact hlists.notMem_other hother hlist hneOther List.mem_cons_self hmem

end GeexOS.Rings
