import GeexOS.Kernel.DoublyLinkedList
import GeexOS.Library.Linked

/-!
# Runs of the doubly linked list

Every operation that adds an element puts it between two parts of the sequence,
of which either may be empty.  So the links represent, after any sequence of
operations, the sequence that the operations on sequences lead to.
-/

namespace GeexOS.DataStructures

open GeexOS.Halting
open GeexOS.Linked

namespace DoublyLinkedList

def nullBefore : Halt :=
  .assertion "Element to insert before in list may not be NULL"

def nullAfter : Halt :=
  .assertion "Element to insert after in list may not be NULL"

def append (list : DoublyLinkedList) (links : Links) (newElement : ℕ) :
    Outcome (DoublyLinkedList × Links) :=
  if newElement = 0 then .error nullElement
  else
    let links := Function.update links newElement ⟨0, list.tail⟩
    if list.tail ≠ 0 then
      .ok (⟨list.head, newElement⟩, setNext links list.tail newElement)
    else .ok (⟨newElement, newElement⟩, links)

def insertBefore (list : DoublyLinkedList) (links : Links) (before newElement : ℕ) :
    Outcome (DoublyLinkedList × Links) :=
  if newElement = 0 then .error nullElement
  else if before = 0 then .error nullBefore
  else
    let links := setNext links newElement before
    let links := setPrevious links newElement (links before).previous
    let links := setPrevious links before newElement
    let previous := (links newElement).previous
    if previous ≠ 0 then .ok (list, setNext links previous newElement)
    else .ok (⟨newElement, list.tail⟩, links)

def insertAfter (list : DoublyLinkedList) (links : Links) (after newElement : ℕ) :
    Outcome (DoublyLinkedList × Links) :=
  if newElement = 0 then .error nullElement
  else if after = 0 then .error nullAfter
  else
    let links := setNext links newElement (links after).next
    let links := setPrevious links newElement after
    let links := setNext links after newElement
    let next := (links newElement).next
    if next ≠ 0 then .ok (list, setPrevious links next newElement)
    else .ok (⟨list.head, newElement⟩, links)

end DoublyLinkedList

/-- The operations that change a list. -/
inductive ListOperation where
  | append (newElement : ℕ)
  | prepend (newElement : ℕ)
  | insertBefore (before newElement : ℕ)
  | insertAfter (after newElement : ℕ)
  | remove (element : ℕ)

namespace ListOperation

def call (list : DoublyLinkedList) (links : Links) :
    ListOperation → Outcome (DoublyLinkedList × Links)
  | append newElement => list.append links newElement
  | prepend newElement => list.prepend links newElement
  | insertBefore before newElement => list.insertBefore links before newElement
  | insertAfter after newElement => list.insertAfter links after newElement
  | remove element => .ok (list.remove links element)

/-- New elements are not in the list, the others are. -/
def Allowed (elements : List ℕ) : ListOperation → Prop
  | append newElement => newElement ≠ 0 ∧ newElement ∉ elements
  | prepend newElement => newElement ≠ 0 ∧ newElement ∉ elements
  | insertBefore before newElement =>
      newElement ≠ 0 ∧ newElement ∉ elements ∧ before ∈ elements
  | insertAfter after newElement =>
      newElement ≠ 0 ∧ newElement ∉ elements ∧ after ∈ elements
  | remove element => element ∈ elements

/-- The operation on sequences. -/
def onSequence (elements : List ℕ) : ListOperation → List ℕ
  | append newElement => elements ++ [newElement]
  | prepend newElement => newElement :: elements
  | insertBefore before newElement =>
      elements.takeWhile (· ≠ before) ++ newElement :: elements.dropWhile (· ≠ before)
  | insertAfter after newElement =>
      elements.takeWhile (· ≠ after) ++ after :: newElement ::
        (elements.dropWhile (· ≠ after)).tail
  | remove element => elements.erase element

instance decidableAllowed (elements : List ℕ) :
    (operation : ListOperation) → Decidable (operation.Allowed elements)
  | append newElement => inferInstanceAs (Decidable (newElement ≠ 0 ∧ newElement ∉ elements))
  | prepend newElement => inferInstanceAs (Decidable (newElement ≠ 0 ∧ newElement ∉ elements))
  | insertBefore before newElement => inferInstanceAs
      (Decidable (newElement ≠ 0 ∧ newElement ∉ elements ∧ before ∈ elements))
  | insertAfter after newElement => inferInstanceAs
      (Decidable (newElement ≠ 0 ∧ newElement ∉ elements ∧ after ∈ elements))
  | remove element => inferInstanceAs (Decidable (element ∈ elements))

end ListOperation

/-- The operations in order, as long as they come back. -/
def runOperations (list : DoublyLinkedList) (links : Links) :
    List ListOperation → Outcome (DoublyLinkedList × Links)
  | [] => .ok (list, links)
  | operation :: rest => do
      let (list, links) ← operation.call list links
      runOperations list links rest

/-- Every operation is allowed on the sequence the ones before it lead to. -/
def AllAllowed : (elements : List ℕ) → List ListOperation → Prop
  | _, [] => True
  | elements, operation :: rest =>
      operation.Allowed elements ∧ AllAllowed (operation.onSequence elements) rest

def onSequences (elements : List ℕ) (operations : List ListOperation) : List ℕ :=
  operations.foldl ListOperation.onSequence elements

/-- What is met from both ends of the list. -/
structure Traverses (list : DoublyLinkedList) (links : Links) (elements : List ℕ) : Prop where
  forward : Chain (fun element => (links element).next) 0 list.head elements
  backward : Chain (fun element => (links element).previous) 0 list.tail elements.reverse
  head_eq_zero_iff : list.head = 0 ↔ elements = []
  tail_eq_zero_iff : list.tail = 0 ↔ elements = []

variable {list list' : DoublyLinkedList} {links links' : Links} {elements front back : List ℕ}
variable {element newElement before after previous next other : ℕ}

/-! ## Both directions -/

theorem Segment.forward (hsegment : Segment links previous elements next)
    (hnext : next ∉ elements) :
    Chain (fun element => (links element).next) next (elements.headD next) elements := by
  induction elements generalizing previous with
  | nil => exact chain_nil.mpr rfl
  | cons element rest ih =>
      obtain ⟨_, hlink, hrest⟩ := hsegment
      rw [List.mem_cons, not_or] at hnext
      refine chain_cons.mpr ⟨rfl, Ne.symm hnext.1, ?_⟩
      rw [hlink]
      exact ih hrest hnext.2

theorem Segment.backward (hsegment : Segment links previous elements next)
    (hprevious : previous ∉ elements) :
    Chain (fun element => (links element).previous) previous (elements.getLastD previous)
      elements.reverse := by
  induction elements using List.reverseRecOn generalizing next with
  | nil => exact chain_nil.mpr rfl
  | append_singleton front last ih =>
      obtain ⟨hfront, hlast⟩ := segment_append.mp hsegment
      rw [List.mem_append, List.mem_singleton, not_or] at hprevious
      rw [List.reverse_append, List.reverse_singleton, List.singleton_append,
        List.getLastD_concat]
      refine chain_cons.mpr ⟨rfl, Ne.symm hprevious.2, ?_⟩
      rw [hlast.2.1]
      exact ih hfront hprevious.1

theorem Represents.zero_notMem (hlist : Represents links list elements) : 0 ∉ elements :=
  fun hmem => hlist.segment.ne_zero hmem rfl

theorem Represents.traverses (hlist : Represents links list elements) :
    Traverses list links elements where
  forward := by
    rw [hlist.head_eq]
    exact hlist.segment.forward hlist.zero_notMem
  backward := by
    rw [hlist.tail_eq]
    exact hlist.segment.backward hlist.zero_notMem
  head_eq_zero_iff := by
    rw [hlist.head_eq]
    exact (hlist.segment.forward hlist.zero_notMem).start_eq_stop_iff
  tail_eq_zero_iff := by
    rw [hlist.tail_eq, ← List.reverse_eq_nil_iff]
    exact (hlist.segment.backward hlist.zero_notMem).start_eq_stop_iff

/-! ## Elements put in between -/

/-- The links of the neighbours are redirected to the new element, where there are
neighbours. -/
def insertBetween (list : DoublyLinkedList) (links : Links) (previous newElement next : ℕ) :
    DoublyLinkedList × Links :=
  let links := Function.update links newElement ⟨next, previous⟩
  let links := if previous ≠ 0 then setNext links previous newElement else links
  let links := if next ≠ 0 then setPrevious links next newElement else links
  (⟨if previous ≠ 0 then list.head else newElement,
    if next ≠ 0 then list.tail else newElement⟩, links)

/-- A new element between the parts of the sequence. -/
theorem Represents.insertBetween (hlist : Represents links list (front ++ back))
    (hne : newElement ≠ 0) (hnew : newElement ∉ front ++ back) :
    let result := insertBetween list links (front.getLastD 0) newElement (back.headD 0)
    Represents result.2 result.1 (front ++ newElement :: back) ∧
      ∀ other, other ∉ front ++ newElement :: back → result.2 other = links other := by
  obtain ⟨hfront, hback⟩ := segment_append.mp hlist.segment
  obtain ⟨hfrontNodup, hbackNodup, hapart⟩ := List.nodup_append.mp hlist.nodup
  have hnewFront : newElement ∉ front := fun hmem => hnew (List.mem_append_left _ hmem)
  have hnewBack : newElement ∉ back := fun hmem => hnew (List.mem_append_right _ hmem)
  have hkept : ∀ other, other ≠ newElement → Function.update links newElement
      ⟨back.headD 0, front.getLastD 0⟩ other = links other := fun other hother =>
    Function.update_of_ne hother _ _
  have hfront' := hfront.congr fun other hmem => hkept other (ne_of_mem_of_not_mem hmem hnewFront)
  have hback' := hback.congr fun other hmem => hkept other (ne_of_mem_of_not_mem hmem hnewBack)
  obtain ⟨hfirst, hfirstFrame⟩ := hfront'.relinkFront hfrontNodup newElement
  have hbackKept := hback'.congr fun other hmem =>
    hfirstFrame other fun hother => hapart other hother other hmem rfl
  obtain ⟨hsecond, hsecondFrame⟩ := hbackKept.relinkBack hbackNodup newElement
  simp only [DataStructures.insertBetween]
  refine ⟨⟨?_, ?_, segment_append.mpr ⟨?_, hne, ?_, hsecond⟩, ?_⟩, fun other hother => ?_⟩
  · cases front with
    | nil => rfl
    | cons first rest =>
        have hlast : (first :: rest).getLastD 0 ≠ 0 := by
          rw [List.getLastD_cons, ← List.getLast_eq_getLastD (List.cons_ne_nil first rest)]
          exact hfront.ne_zero (List.getLast_mem _)
        simp only [hlast, ne_eq, not_false_iff, if_true]
        exact hlist.head_eq
  · cases back with
    | nil => simp
    | cons first rest =>
        have hfirst : first ≠ 0 := hback.1
        simp only [List.headD_cons, hfirst, ne_eq, not_false_iff, if_true]
        rw [hlist.tail_eq]
        simp
  · exact hfirst.congr fun other hmem =>
      hsecondFrame other fun hother => hapart other hmem other hother rfl
  · rw [hsecondFrame newElement hnewBack, hfirstFrame newElement hnewFront,
      Function.update_self]
  · exact List.nodup_middle.mpr (List.nodup_cons.mpr ⟨hnew, hlist.nodup⟩)
  · rw [List.mem_append, List.mem_cons, not_or, not_or] at hother
    rw [hsecondFrame other hother.2.2, hfirstFrame other hother.1, hkept other hother.2.1]

theorem append_eq (hne : newElement ≠ 0) :
    list.append links newElement = .ok (insertBetween list links list.tail newElement 0) := by
  rw [DoublyLinkedList.append, if_neg hne, insertBetween]
  by_cases htail : list.tail = 0 <;> simp [htail]

theorem prepend_eq (hne : newElement ≠ 0) :
    list.prepend links newElement = .ok (insertBetween list links 0 newElement list.head) := by
  rw [DoublyLinkedList.prepend, if_neg hne, insertBetween]
  by_cases hhead : list.head = 0 <;> simp [hhead]

/-- The two links of the new element are set one after the other. -/
theorem setPrevious_setNext :
    setPrevious (setNext links newElement next) newElement previous =
      Function.update links newElement ⟨next, previous⟩ := by
  simp [setPrevious, setNext]

theorem setNext_setPrevious_comm (hne : previous ≠ next) :
    setNext (setPrevious links next newElement) previous newElement =
      setPrevious (setNext links previous newElement) next newElement := by
  rw [setNext, setPrevious, setPrevious, setNext, Function.update_of_ne hne,
    Function.update_of_ne hne.symm, Function.update_comm hne]

theorem insertBefore_eq (hne : newElement ≠ 0) (hbefore : before ≠ 0)
    (hdistinct : before ≠ newElement) (hapart : (links before).previous ≠ before) :
    list.insertBefore links before newElement =
      .ok (insertBetween list links (links before).previous newElement before) := by
  have hkept : (setNext links newElement before before).previous = (links before).previous := by
    rw [setNext, Function.update_of_ne hdistinct]
  have hnew : ∀ links : Links, setPrevious links before newElement newElement =
      links newElement := fun links => Function.update_of_ne hdistinct.symm _ _
  rw [DoublyLinkedList.insertBefore, if_neg hne, if_neg hbefore]
  simp only [hkept, setPrevious_setNext, hnew, Function.update_self, insertBetween]
  by_cases hprevious : (links before).previous = 0
  · simp [hprevious, hbefore]
  · simp [hprevious, hbefore, setNext_setPrevious_comm hapart]

theorem insertAfter_eq (hne : newElement ≠ 0) (hafter : after ≠ 0)
    (hdistinct : after ≠ newElement) :
    list.insertAfter links after newElement =
      .ok (insertBetween list links after newElement (links after).next) := by
  have hnew : ∀ links : Links, setNext links after newElement newElement = links newElement :=
    fun links => Function.update_of_ne hdistinct.symm _ _
  rw [DoublyLinkedList.insertAfter, if_neg hne, if_neg hafter]
  simp only [setPrevious_setNext, hnew, Function.update_self, insertBetween]
  by_cases hnext : (links after).next = 0
  · simp [hnext, hafter]
  · simp [hnext, hafter]

/-! ## Operations -/

/-- The parts of a sequence around an element. -/
theorem exists_around (hnodup : elements.Nodup) (hmem : element ∈ elements) :
    ∃ front back, elements = front ++ element :: back ∧
      elements.takeWhile (· ≠ element) = front ∧
        elements.dropWhile (· ≠ element) = element :: back := by
  obtain ⟨front, back, rfl⟩ := List.append_of_mem hmem
  have hfront : ∀ other ∈ front, decide (other ≠ element) = true := by
    intro other hother
    obtain ⟨_, _, hapart⟩ := List.nodup_append.mp hnodup
    exact decide_eq_true (hapart other hother element List.mem_cons_self)
  refine ⟨front, back, rfl, ?_, ?_⟩
  · rw [List.takeWhile_append_of_pos hfront]
    simp
  · rw [List.dropWhile_append_of_pos hfront]
    simp

/-- An operation that is allowed comes back with the links of the new sequence, and
leaves the nodes outside as they are. -/
theorem Represents.call (hlist : Represents links list elements) {operation : ListOperation}
    (hallowed : operation.Allowed elements) :
    ∃ list' links', operation.call list links = .ok (list', links') ∧
      Represents links' list' (operation.onSequence elements) ∧
      ∀ other, other ∉ elements → other ∉ operation.onSequence elements →
        links' other = links other := by
  cases operation with
  | append newElement =>
      obtain ⟨hne, hnew⟩ := hallowed
      have hparts : Represents links list (elements ++ []) := by rwa [List.append_nil]
      obtain ⟨hlist', hframe⟩ := hparts.insertBetween hne (by rwa [List.append_nil])
      rw [← hlist.tail_eq, List.headD_nil] at hlist' hframe
      exact ⟨_, _, append_eq hne, hlist', fun other _ hother => hframe other hother⟩
  | prepend newElement =>
      obtain ⟨hne, hnew⟩ := hallowed
      have hparts : Represents links list ([] ++ elements) := hlist
      obtain ⟨hlist', hframe⟩ := hparts.insertBetween hne hnew
      rw [← hlist.head_eq, List.getLastD_nil] at hlist' hframe
      exact ⟨_, _, prepend_eq hne, hlist', fun other _ hother => hframe other hother⟩
  | insertBefore before newElement =>
      obtain ⟨hne, hnew, hmem⟩ := hallowed
      obtain ⟨front, back, rfl, htake, hdrop⟩ := exists_around hlist.nodup hmem
      obtain ⟨_, hbefore, hlink, _⟩ := segment_append.mp hlist.segment
      obtain ⟨hlist', hframe⟩ := hlist.insertBetween hne hnew
      have hprevious : (links before).previous = front.getLastD 0 := by rw [hlink]
      have hapart : (links before).previous ≠ before := by
        rw [hprevious]
        intro heq
        obtain ⟨_, _, hdistinct⟩ := List.nodup_append.mp hlist.nodup
        rcases List.eq_nil_or_concat' front with rfl | ⟨init, last, rfl⟩
        · exact hbefore heq.symm
        · rw [List.getLastD_concat] at heq
          exact hdistinct last (by simp) before List.mem_cons_self heq
      have hcall : list.insertBefore links before newElement = _ :=
        insertBefore_eq hne hbefore (ne_of_mem_of_not_mem hmem hnew) hapart
      rw [hprevious] at hcall
      rw [ListOperation.onSequence, htake, hdrop]
      exact ⟨_, _, hcall, hlist', fun other _ hother => hframe other hother⟩
  | insertAfter after newElement =>
      obtain ⟨hne, hnew, hmem⟩ := hallowed
      obtain ⟨front, back, rfl, htake, hdrop⟩ := exists_around hlist.nodup hmem
      obtain ⟨_, hafter, hlink, _⟩ := segment_append.mp hlist.segment
      have hparts : Represents links list ((front ++ [after]) ++ back) := by
        rwa [List.append_assoc, List.singleton_append]
      obtain ⟨hlist', hframe⟩ := hparts.insertBetween hne
        (by rwa [List.append_assoc, List.singleton_append])
      have hcall : list.insertAfter links after newElement = _ :=
        insertAfter_eq hne hafter (ne_of_mem_of_not_mem hmem hnew)
      rw [hlink] at hcall
      rw [List.getLastD_concat, List.append_assoc, List.singleton_append] at hlist' hframe
      rw [ListOperation.onSequence, htake, hdrop, List.tail_cons]
      exact ⟨_, _, hcall, hlist', fun other _ hother => hframe other hother⟩
  | remove element =>
      obtain ⟨front, back, rfl⟩ := List.append_of_mem hallowed
      obtain ⟨hlist', hframe⟩ := hlist.remove
      have herase : (front ++ element :: back).erase element = front ++ back := by
        obtain ⟨_, _, hdistinct⟩ := List.nodup_append.mp hlist.nodup
        have hfront : element ∉ front := fun hmem =>
          hdistinct element hmem element List.mem_cons_self rfl
        rw [List.erase_append_right _ hfront, List.erase_cons_head]
      rw [ListOperation.onSequence, herase]
      exact ⟨_, _, rfl, hlist', fun other _ hother => hframe other hother⟩

/-- The links and the sequence after any operations. -/
theorem Represents.runOperations {operations : List ListOperation}
    (hlist : Represents links list elements) (hallowed : AllAllowed elements operations) :
    ∃ list' links', runOperations list links operations = .ok (list', links') ∧
      Represents links' list' (onSequences elements operations) := by
  induction operations generalizing list links elements with
  | nil => exact ⟨list, links, rfl, hlist⟩
  | cons operation rest ih =>
      obtain ⟨hfirst, hrest⟩ := hallowed
      obtain ⟨list₁, links₁, hcall, hlist₁, _⟩ := hlist.call hfirst
      obtain ⟨list', links', hcalls, hlist'⟩ := ih hlist₁ hrest
      refine ⟨list', links', ?_, hlist'⟩
      rw [DataStructures.runOperations, hcall, ok_bind]
      exact hcalls

/-- After any operations on an empty list both directions traverse the abstract
sequence, and the next operation leaves the nodes outside as they are. -/
theorem runOperations_traverses (links : Links) {operations : List ListOperation}
    (hallowed : AllAllowed [] operations) :
    ∃ list links', runOperations .empty links operations = .ok (list, links') ∧
      Traverses list links' (onSequences [] operations) ∧
      ∀ operation : ListOperation, operation.Allowed (onSequences [] operations) →
        ∃ list'' links'', operation.call list links' = .ok (list'', links'') ∧
          ∀ other, other ∉ onSequences [] operations →
            other ∉ operation.onSequence (onSequences [] operations) →
              links'' other = links' other := by
  obtain ⟨list, links', hcalls, hlist⟩ := (represents_empty links).runOperations hallowed
  refine ⟨list, links', hcalls, hlist.traverses, fun operation hnext => ?_⟩
  obtain ⟨list'', links'', hcall, _, hframe⟩ := hlist.call hnext
  exact ⟨list'', links'', hcall, hframe⟩

/-- All five operations in a row. -/
def fiveOperations : List ListOperation :=
  [.append 1, .prepend 2, .insertBefore 1 3, .insertAfter 1 4, .remove 2]

theorem runOperations_traverses_five :
    ∃ list links, runOperations .empty (fun _ => ⟨0, 0⟩) fiveOperations = .ok (list, links) ∧
      Traverses list links [3, 1, 4] := by
  have hallowed : AllAllowed [] fiveOperations :=
    ⟨by decide, by decide, by decide, by decide, by decide, trivial⟩
  obtain ⟨list, links, hcalls, htraverses, _⟩ :=
    runOperations_traverses (fun _ => ⟨0, 0⟩) hallowed
  exact ⟨list, links, hcalls, htraverses⟩

end GeexOS.DataStructures
