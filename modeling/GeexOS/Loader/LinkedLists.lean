import GeexOS.Library.Rings
import GeexOS.Loader.ImageDescriptors

/-!
# The loader's linked lists

Images, devices and mounts are kept in circular lists whose links lie in the elements
themselves.  Whatever is done to the lists, their links stand for the sequences that one
would expect, and loops over a list see its sequence.
-/

namespace GeexOS.LinkedLists

open GeexOS.Halting
open GeexOS.BootBlock
open GeexOS.Rings

/-! ## The rest of list.h -/

/-- `INIT_LIST_HEAD`. -/
def initListHead (ptr : ℕ) (links : ListHeads) : ListHeads :=
  let links := setNext links ptr ptr
  setPrev links ptr ptr

def listAddTail (new head : ℕ) (links : ListHeads) : ListHeads :=
  listInsert new (links head).prev head links

/-- `__list_del`. -/
def listUnlink (prev next : ℕ) (links : ListHeads) : ListHeads :=
  let links := setPrev links next prev
  setNext links prev next

def listDel (entry : ℕ) (links : ListHeads) : ListHeads :=
  let links := listUnlink (links entry).prev (links entry).next links
  let links := setNext links entry 0
  setPrev links entry 0

def listDelInit (entry : ℕ) (links : ListHeads) : ListHeads :=
  let links := listUnlink (links entry).prev (links entry).next links
  initListHead entry links

def listMove (list head : ℕ) (links : ListHeads) : ListHeads :=
  let links := listUnlink (links list).prev (links list).next links
  listAdd list head links

def listMoveTail (list head : ℕ) (links : ListHeads) : ListHeads :=
  let links := listUnlink (links list).prev (links list).next links
  listAddTail list head links

/-- `__list_splice`. -/
def spliceLinks (list head : ℕ) (links : ListHeads) : ListHeads :=
  let first := (links list).next
  let last := (links list).prev
  let place := (links head).next
  let links := setPrev links first head
  let links := setNext links head first
  let links := setNext links last place
  setPrev links place last

def listSplice (list head : ℕ) (links : ListHeads) : ListHeads :=
  if !listEmpty list links then spliceLinks list head links else links

def listSpliceInit (list head : ℕ) (links : ListHeads) : ListHeads :=
  if !listEmpty list links then initListHead list (spliceLinks list head links) else links

/-- A loop along the links until the head is met. -/
def loopFrom (step : ℕ → ℕ) (head : ℕ) : (fuel pos : ℕ) → Outcome (List ℕ)
  | 0, _ => .error .diverges
  | fuel + 1, pos =>
      if pos ≠ head then do
        let rest ← loopFrom step head fuel (step pos)
        .ok (pos :: rest)
      else .ok []

/-- The elements that `list_for_each` comes to. -/
def listForEach (fuel head : ℕ) (links : ListHeads) : Outcome (List ℕ) :=
  loopFrom (fun pos => (links pos).next) head fuel (links head).next

def listForEachPrev (fuel head : ℕ) (links : ListHeads) : Outcome (List ℕ) :=
  loopFrom (fun pos => (links pos).prev) head fuel (links head).prev

/-! ## Calls, and what they mean for the sequences -/

inductive ListCall where
  | init (head : ℕ)
  | add (new head : ℕ)
  | addTail (new head : ℕ)
  | del (entry : ℕ)
  | delInit (entry : ℕ)
  | move (list head : ℕ)
  | moveTail (list head : ℕ)
  | splice (list head : ℕ)
  | spliceInit (list head : ℕ)
  deriving DecidableEq, Repr

def perform (links : ListHeads) : ListCall → ListHeads
  | .init head => initListHead head links
  | .add new head => listAdd new head links
  | .addTail new head => listAddTail new head links
  | .del entry => listDel entry links
  | .delInit entry => listDelInit entry links
  | .move list head => listMove list head links
  | .moveTail list head => listMoveTail list head links
  | .splice list head => listSplice list head links
  | .spliceInit list head => listSpliceInit list head links

/-- The entries of one list are rewritten. -/
def rewrite (lists : Sequences ℕ) (head : ℕ) (edit : List ℕ → List ℕ) : Sequences ℕ :=
  Function.update lists head ((lists head).map edit)

/-- The entry leaves the list that it is in. -/
def without (lists : Sequences ℕ) (entry : ℕ) : Sequences ℕ :=
  fun head => (lists head).map fun entries => entries.erase entry

def spliced (lists : Sequences ℕ) (list head : ℕ) : Sequences ℕ :=
  rewrite (Function.update lists list none) head fun entries => (lists list).getD [] ++ entries

/-- An element with links of its own is a list without entries. -/
def withEmpty (lists : Sequences ℕ) (head : ℕ) : Sequences ℕ :=
  Function.update lists head (some [])

def apply (lists : Sequences ℕ) : ListCall → Sequences ℕ
  | .init head => withEmpty lists head
  | .add new head => rewrite lists head fun entries => new :: entries
  | .addTail new head => rewrite lists head fun entries => entries ++ [new]
  | .del entry => without lists entry
  | .delInit entry => withEmpty (without lists entry) entry
  | .move list head => rewrite (without lists list) head fun entries => list :: entries
  | .moveTail list head => rewrite (without lists list) head fun entries => entries ++ [list]
  | .splice list head => if lists list = some [] then lists else spliced lists list head
  | .spliceInit list head =>
      if lists list = some [] then lists else withEmpty (spliced lists list head) list

/-- What is added is in no list, what is taken away is in one, and a list does not get its
own entries. -/
def Allowed (lists : Sequences ℕ) : ListCall → Prop
  | .init head => ¬ Member lists head
  | .add new head => lists head ≠ none ∧ ¬ Member lists new
  | .addTail new head => lists head ≠ none ∧ ¬ Member lists new
  | .del entry => ∃ head entries, lists head = some entries ∧ entry ∈ entries
  | .delInit entry => ∃ head entries, lists head = some entries ∧ entry ∈ entries
  | .move list head => lists head ≠ none ∧
      ∃ source entries, lists source = some entries ∧ list ∈ entries
  | .moveTail list head => lists head ≠ none ∧
      ∃ source entries, lists source = some entries ∧ list ∈ entries
  | .splice list head => lists head ≠ none ∧ lists list ≠ none ∧ list ≠ head
  | .spliceInit list head => lists head ≠ none ∧ lists list ≠ none ∧ list ≠ head

def AllAllowed (lists : Sequences ℕ) : List ListCall → Prop
  | [] => True
  | call :: calls => Allowed lists call ∧ AllAllowed (apply lists call) calls

/-- What a caller sees of the lists. -/
structure Shows (links : ListHeads) (head : ℕ) (entries : List ℕ) : Prop where
  empty : listEmpty head links = entries.isEmpty
  forEach : ∀ fuel > entries.length, listForEach fuel head links = .ok entries
  forEachPrev : ∀ fuel > entries.length, listForEachPrev fuel head links = .ok entries.reverse

variable {links : ListHeads} {lists : Sequences ℕ} {entries : List ℕ}
variable {head new entry list fuel : ℕ}

/-! ## The links as links of rings -/

def linksOf (links : ListHeads) : Links ℕ where
  next := fun cell => (links cell).next
  prev := fun cell => (links cell).prev

theorem linksOf_setNext (links : ListHeads) (cell next : ℕ) :
    linksOf (setNext links cell next) =
      ⟨Function.update (linksOf links).next cell next, (linksOf links).prev⟩ := by
  rw [linksOf, Links.mk.injEq]
  constructor
  · ext other
    rw [next_setNext, Function.update_apply]
    rfl
  · ext other
    exact prev_setNext links cell next other

theorem linksOf_setPrev (links : ListHeads) (cell prev : ℕ) :
    linksOf (setPrev links cell prev) =
      ⟨(linksOf links).next, Function.update (linksOf links).prev cell prev⟩ := by
  rw [linksOf, Links.mk.injEq]
  constructor
  · ext other
    exact next_setPrev links cell prev other
  · ext other
    rw [prev_setPrev, Function.update_apply]
    rfl

theorem linksOf_listInsert (new prev next : ℕ) (links : ListHeads) :
    linksOf (listInsert new prev next links) =
      join prev new (join new next (linksOf links)) := by
  simp only [listInsert, linksOf_setNext, linksOf_setPrev, join]

theorem linksOf_listUnlink (prev next : ℕ) (links : ListHeads) :
    linksOf (listUnlink prev next links) = join prev next (linksOf links) := by
  simp only [listUnlink, linksOf_setNext, linksOf_setPrev, join]

theorem linksOf_spliceLinks (list head : ℕ) (links : ListHeads) :
    linksOf (spliceLinks list head links) =
      join (links list).prev (links head).next (join head (links list).next (linksOf links)) := by
  simp only [spliceLinks, linksOf_setNext, linksOf_setPrev, join]

/-- Both links of an element are written. -/
theorem linksOf_setBoth (links : ListHeads) (cell next prev : ℕ) :
    linksOf (setPrev (setNext links cell next) cell prev) =
      ⟨Function.update (linksOf links).next cell next,
        Function.update (linksOf links).prev cell prev⟩ := by
  simp only [linksOf_setNext, linksOf_setPrev]

/-! ## Every call keeps links and sequences together -/

theorem rewrite_eq (hhead : lists head = some entries) (edit : List ℕ → List ℕ) :
    rewrite lists head edit = Function.update lists head (some (edit entries)) := by
  rw [rewrite, hhead, Option.map_some]

/-- Only the list of the entry changes. -/
theorem without_eq (hlists : Represents (linksOf links) lists) (hhead : lists head = some entries)
    (hentry : entry ∈ entries) :
    without lists entry = Function.update lists head (some (entries.erase entry)) := by
  funext other
  by_cases heq : other = head
  · subst heq
    rw [without, hhead, Function.update_self, Option.map_some]
  · rw [without, Function.update_of_ne heq]
    cases hother : lists other with
    | none => rfl
    | some otherEntries =>
        have hout := hlists.notMem_other hhead hother heq (List.mem_cons_of_mem _ hentry)
        rw [Option.map_some,
          List.erase_of_not_mem fun hmem => hout (List.mem_cons_of_mem _ hmem)]

theorem represents_init (hlists : Represents (linksOf links) lists) (hnew : ¬ Member lists head) :
    Represents (linksOf (initListHead head links)) (withEmpty lists head) := by
  refine hlists.init hnew (fun cell hne => ?_) ?_ <;> rw [initListHead, linksOf_setBoth]
  · exact ⟨Function.update_of_ne hne .., Function.update_of_ne hne ..⟩
  · exact ⟨Function.update_self .., Function.update_self ..⟩

theorem represents_add (hlists : Represents (linksOf links) lists) (hhead : lists head ≠ none)
    (hnew : ¬ Member lists new) :
    Represents (linksOf (listAdd new head links))
      (rewrite lists head fun entries => new :: entries) := by
  obtain ⟨entries, hentries⟩ := Option.ne_none_iff_exists'.mp hhead
  rw [listAdd, linksOf_listInsert, rewrite_eq hentries]
  exact hlists.insertFront hentries hnew

theorem represents_addTail (hlists : Represents (linksOf links) lists) (hhead : lists head ≠ none)
    (hnew : ¬ Member lists new) :
    Represents (linksOf (listAddTail new head links))
      (rewrite lists head fun entries => entries ++ [new]) := by
  obtain ⟨entries, hentries⟩ := Option.ne_none_iff_exists'.mp hhead
  rw [listAddTail, linksOf_listInsert, rewrite_eq hentries]
  exact hlists.insertBack hentries hnew

/-- The element is unlinked, and it is in no list any more. -/
theorem represents_unlink (hlists : Represents (linksOf links) lists)
    (hhead : lists head = some entries) (hentry : entry ∈ entries) :
    Represents (linksOf (listUnlink (links entry).prev (links entry).next links))
        (without lists entry) ∧ ¬ Member (without lists entry) entry := by
  rw [linksOf_listUnlink, without_eq hlists hhead hentry]
  exact hlists.remove hhead hentry

theorem represents_del (hlists : Represents (linksOf links) lists)
    (hhead : lists head = some entries) (hentry : entry ∈ entries) :
    Represents (linksOf (listDel entry links)) (without lists entry) := by
  obtain ⟨hunlinked, hout⟩ := represents_unlink hlists hhead hentry
  refine hunlinked.congr fun cell hmem => ?_
  have hne : cell ≠ entry := fun heq => hout (heq ▸ hmem)
  rw [listDel, linksOf_setBoth]
  exact ⟨Function.update_of_ne hne .., Function.update_of_ne hne ..⟩

theorem listEmpty_eq (hlists : Represents (linksOf links) lists)
    (hhead : lists head = some entries) : listEmpty head links = entries.isEmpty := by
  have hring := hlists.ring head entries hhead
  have hnext : (links head).next = entries.headD head := hring.next_head
  rw [listEmpty, hnext]
  cases entries with
  | nil => simp
  | cons first rest =>
      have hne : first ≠ head := fun heq =>
        (List.nodup_cons.mp hring.nodup).1 (heq ▸ List.mem_cons_self)
      simp [hne]

theorem without_ne_none (hhead : lists head ≠ none) (entry : ℕ) :
    without lists entry head ≠ none := by
  rw [without, Ne, Option.map_eq_none_iff]
  exact hhead

/-- The two heads of a splice that moves entries. -/
theorem represents_spliceLinks (hlists : Represents (linksOf links) lists)
    (hhead : lists head ≠ none) (hlist : lists list ≠ none) (hne : list ≠ head)
    (hempty : lists list ≠ some []) :
    listEmpty list links = false ∧
      Represents (linksOf (spliceLinks list head links)) (spliced lists list head) ∧
      ¬ Member (spliced lists list head) list := by
  obtain ⟨entries, hentries⟩ := Option.ne_none_iff_exists'.mp hhead
  obtain ⟨otherEntries, hother⟩ := Option.ne_none_iff_exists'.mp hlist
  obtain ⟨first, rest, rfl⟩ : ∃ first rest, otherEntries = first :: rest := by
    cases otherEntries with
    | nil => exact absurd hother hempty
    | cons first rest => exact ⟨first, rest, rfl⟩
  have hspliced : spliced lists list head =
      Function.update (Function.update lists list none) head
        (some ((first :: rest) ++ entries)) := by
    have hkept : Function.update lists list none head = some entries :=
      (Function.update_of_ne hne.symm ..).trans hentries
    rw [spliced, rewrite_eq hkept, hother, Option.getD_some]
  rw [linksOf_spliceLinks, hspliced]
  exact ⟨listEmpty_eq hlists hother, hlists.splice hentries hother hne rfl⟩

/-- A call does to the links what it does to the sequences. -/
theorem represents_perform (hlists : Represents (linksOf links) lists) {call : ListCall}
    (hallowed : Allowed lists call) :
    Represents (linksOf (perform links call)) (apply lists call) := by
  cases call with
  | init head => exact represents_init hlists hallowed
  | add new head => exact represents_add hlists hallowed.1 hallowed.2
  | addTail new head => exact represents_addTail hlists hallowed.1 hallowed.2
  | del entry =>
      obtain ⟨head, entries, hhead, hentry⟩ := hallowed
      exact represents_del hlists hhead hentry
  | delInit entry =>
      obtain ⟨head, entries, hhead, hentry⟩ := hallowed
      obtain ⟨hunlinked, hout⟩ := represents_unlink hlists hhead hentry
      exact represents_init hunlinked hout
  | move list head =>
      obtain ⟨htarget, source, entries, hsource, hentry⟩ := hallowed
      obtain ⟨hunlinked, hout⟩ := represents_unlink hlists hsource hentry
      exact represents_add hunlinked (without_ne_none htarget list) hout
  | moveTail list head =>
      obtain ⟨htarget, source, entries, hsource, hentry⟩ := hallowed
      obtain ⟨hunlinked, hout⟩ := represents_unlink hlists hsource hentry
      exact represents_addTail hunlinked (without_ne_none htarget list) hout
  | splice list head =>
      obtain ⟨hhead, hlist, hne⟩ := hallowed
      rw [perform, apply, listSplice]
      by_cases hempty : lists list = some []
      · rw [if_pos hempty, listEmpty_eq hlists hempty]
        exact hlists
      · obtain ⟨hfull, hspliced, -⟩ := represents_spliceLinks hlists hhead hlist hne hempty
        rw [if_neg hempty, hfull]
        exact hspliced
  | spliceInit list head =>
      obtain ⟨hhead, hlist, hne⟩ := hallowed
      rw [perform, apply, listSpliceInit]
      by_cases hempty : lists list = some []
      · rw [if_pos hempty, listEmpty_eq hlists hempty]
        exact hlists
      · obtain ⟨hfull, hspliced, hout⟩ := represents_spliceLinks hlists hhead hlist hne hempty
        rw [if_neg hempty, hfull]
        exact represents_init hspliced hout

theorem represents_run {calls : List ListCall} (hlists : Represents (linksOf links) lists)
    (hallowed : AllAllowed lists calls) :
    Represents (linksOf (calls.foldl perform links)) (calls.foldl apply lists) := by
  induction calls generalizing links lists with
  | nil => exact hlists
  | cons call calls ih => exact ih (represents_perform hlists hallowed.1) hallowed.2

/-! ## Loops over a list -/

/-- The neighbour of the first of some cells in front of the head. -/
theorem headD_of_isChain {step : ℕ → ℕ} {first : ℕ} {rest : List ℕ}
    (hchain : (first :: rest ++ [head]).IsChain fun cell other => step cell = other) :
    step first = rest.headD head := by
  cases rest with
  | nil => exact (List.isChain_cons_cons.mp hchain).1
  | cons second rest => exact (List.isChain_cons_cons.mp hchain).1

theorem loopFrom_eq {step : ℕ → ℕ} {cells : List ℕ}
    (hchain : (cells ++ [head]).IsChain fun cell other => step cell = other)
    (hhead : head ∉ cells) (hfuel : cells.length < fuel) :
    loopFrom step head fuel (cells.headD head) = .ok cells := by
  induction cells generalizing fuel with
  | nil =>
      obtain ⟨fuel, rfl⟩ := Nat.exists_eq_succ_of_ne_zero (Nat.ne_of_gt hfuel)
      rw [List.headD_nil, loopFrom, if_neg (by simp)]
  | cons first rest ih =>
      obtain ⟨fuel, rfl⟩ := Nat.exists_eq_succ_of_ne_zero (Nat.ne_of_gt (Nat.zero_lt_of_lt hfuel))
      rw [List.mem_cons, not_or] at hhead
      rw [List.length_cons, Nat.succ_lt_succ_iff] at hfuel
      rw [List.headD_cons, loopFrom, if_pos (Ne.symm hhead.1), headD_of_isChain hchain,
        ih hchain.tail hhead.2 hfuel]
      rfl

theorem shows_of_represents (hlists : Represents (linksOf links) lists)
    (hhead : lists head = some entries) : Shows links head entries := by
  have hring := hlists.ring head entries hhead
  have hnotMem := (List.nodup_cons.mp hring.nodup).1
  refine ⟨listEmpty_eq hlists hhead, fun fuel hfuel => ?_, fun fuel hfuel => ?_⟩
  · have hnext : (links head).next = entries.headD head := hring.next_head
    rw [listForEach, hnext]
    exact loopFrom_eq (hring.chain.tail.imp fun _ _ hjoined => hjoined.1) hnotMem hfuel
  · have hprev : (links head).prev = entries.getLastD head := hring.prev_head
    have hreverse : (entries.reverse ++ [head]).IsChain fun cell other =>
        (links cell).prev = other := by
      rw [← List.reverse_cons, List.isChain_reverse]
      have hchain := hring.chain
      rw [← List.cons_append] at hchain
      exact hchain.left_of_append.imp fun _ _ hjoined => hjoined.2
    have hfirst : entries.getLastD head = entries.reverse.headD head := by
      rw [List.getLastD_eq_getLast?, List.headD_eq_head?_getD, List.head?_reverse]
    rw [listForEachPrev, hprev, hfirst]
    exact loopFrom_eq hreverse (by rwa [List.mem_reverse]) (by rwa [List.length_reverse])

/-- After any calls the links make up the lists that the calls ask for, and loops over a list
meet its entries, forwards and backwards. -/
theorem shows_of_run {calls : List ListCall} (hlists : Represents (linksOf links) lists)
    (hallowed : AllAllowed lists calls) :
    Represents (linksOf (calls.foldl perform links)) (calls.foldl apply lists) ∧
      ∀ head entries, calls.foldl apply lists head = some entries →
        Shows (calls.foldl perform links) head entries :=
  have hfinal := represents_run hlists hallowed
  ⟨hfinal, fun _ _ hhead => shows_of_represents hfinal hhead⟩

/-- Before any list is made there is none. -/
theorem represents_none (links : ListHeads) : Represents (linksOf links) fun _ => none where
  ring _ _ hnone := nomatch hnone
  apart _ _ _ _ _ hnone := nomatch hnone

/-- Two lists, and the entries of one moved before those of the other. -/
theorem shows_of_run_splice :
    Shows ([.init 1, .init 2, .add 3 1, .addTail 4 1, .add 5 2, .splice 2 1].foldl perform
      fun _ => ⟨0, 0⟩) 1 [5, 3, 4] := by
  refine (shows_of_run (represents_none _) ?_).2 1 [5, 3, 4] ?_
  · simp [AllAllowed, Allowed, apply, withEmpty, rewrite, Member, Function.update_apply]
    grind
  · simp [apply, withEmpty, rewrite, spliced]

end GeexOS.LinkedLists
