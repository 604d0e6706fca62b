import GeexOS.Library.Halting
import Mathlib.Data.List.Nodup
import Mathlib.Logic.Function.Basic
import Mathlib.Tactic.Common

/-!
# The kernel's intrusive doubly linked list

The two links of an element live in the element, so the elements of several
lists share one memory of links.  An address of zero is the null pointer.
-/

namespace GeexOS.DataStructures

open GeexOS.Halting

/-- `DoublyLinkedListLink`. -/
structure Link where
  next : ℕ
  previous : ℕ
  deriving DecidableEq, Repr

/-- The link fields of every object, by the object's address. -/
abbrev Links := ℕ → Link

/-- The list object; `tail` is the source's `end`. -/
structure DoublyLinkedList where
  head : ℕ
  tail : ℕ
  deriving DecidableEq, Repr

def setNext (links : Links) (element next : ℕ) : Links :=
  Function.update links element { links element with next := next }

def setPrevious (links : Links) (element previous : ℕ) : Links :=
  Function.update links element { links element with previous := previous }

namespace DoublyLinkedList

def empty : DoublyLinkedList := ⟨0, 0⟩

def isEmpty (list : DoublyLinkedList) : Bool := list.head = 0

def nullElement : Halt :=
  .assertion "Element to insert in list may not be NULL"

def prepend (list : DoublyLinkedList) (links : Links) (newElement : ℕ) :
    Outcome (DoublyLinkedList × Links) :=
  if newElement = 0 then .error nullElement
  else
    let links := Function.update links newElement ⟨list.head, 0⟩
    if list.head ≠ 0 then
      .ok (⟨newElement, list.tail⟩, setPrevious links list.head newElement)
    else .ok (⟨newElement, newElement⟩, links)

/-- The element's own links keep their values, as in the source. -/
def remove (list : DoublyLinkedList) (links : Links) (element : ℕ) :
    DoublyLinkedList × Links :=
  if element = 0 then (list, links)
  else
    let next := (links element).next
    let previous := (links element).previous
    let links := if previous ≠ 0 then setNext links previous next else links
    let links := if next ≠ 0 then setPrevious links next previous else links
    (⟨if previous ≠ 0 then list.head else next,
      if next ≠ 0 then list.tail else previous⟩, links)

end DoublyLinkedList

/-! ## The sequence a list stands for -/

/-- The links of consecutive elements agree; `previous` and `next` are the
neighbours outside. -/
def Segment (links : Links) : ℕ → List ℕ → ℕ → Prop
  | _, [], _ => True
  | previous, element :: rest, next =>
      element ≠ 0 ∧ links element = ⟨rest.headD next, previous⟩ ∧
        Segment links element rest next

/-- The list object and the links represent the sequence `elements`. -/
structure Represents (links : Links) (list : DoublyLinkedList)
    (elements : List ℕ) : Prop where
  head_eq : list.head = elements.headD 0
  tail_eq : list.tail = elements.getLastD 0
  segment : Segment links 0 elements 0
  nodup : elements.Nodup

theorem segment_append {links : Links} {previous next : ℕ}
    {front back : List ℕ} :
    Segment links previous (front ++ back) next ↔
      Segment links previous front (back.headD next) ∧
        Segment links (front.getLastD previous) back next := by
  induction front generalizing previous with
  | nil => simp [Segment]
  | cons element rest ih =>
      have hhead : (rest ++ back).headD next = rest.headD (back.headD next) := by
        cases rest <;> simp
      simp only [List.cons_append, Segment, ih, hhead, List.getLastD_cons]
      tauto

theorem Segment.congr {links links' : Links} {previous next : ℕ}
    {elements : List ℕ} (hsegment : Segment links previous elements next)
    (hlinks : ∀ element ∈ elements, links' element = links element) :
    Segment links' previous elements next := by
  induction elements generalizing previous with
  | nil => trivial
  | cons element rest ih =>
      obtain ⟨hne, hlink, hrest⟩ := hsegment
      refine ⟨hne, ?_, ih hrest fun other hmem =>
        hlinks other (List.mem_cons_of_mem _ hmem)⟩
      rw [hlinks element List.mem_cons_self, hlink]

theorem Segment.ne_zero {links : Links} {previous next element : ℕ}
    {elements : List ℕ} (hsegment : Segment links previous elements next)
    (hmem : element ∈ elements) : element ≠ 0 := by
  induction elements generalizing previous with
  | nil => simp at hmem
  | cons head rest ih =>
      obtain ⟨hne, _, hrest⟩ := hsegment
      rcases List.mem_cons.mp hmem with rfl | htail
      · exact hne
      · exact ih hrest htail

/-- Redirecting the next link of the last element. -/
theorem Segment.setNext_last {links : Links} {previous next other last : ℕ}
    {front : List ℕ} (hsegment : Segment links previous (front ++ [last]) next)
    (hlast : last ∉ front) :
    Segment (setNext links last other) previous (front ++ [last]) other := by
  rw [segment_append] at hsegment ⊢
  obtain ⟨hfront, hne, hlink, _⟩ := hsegment
  refine ⟨hfront.congr fun element hmem => ?_, hne, ?_, trivial⟩
  · exact Function.update_of_ne (ne_of_mem_of_not_mem hmem hlast) _ _
  · simp [setNext, hlink]

/-- Redirecting the previous link of the first element. -/
theorem Segment.setPrevious_head {links : Links}
    {previous next other first : ℕ} {rest : List ℕ}
    (hsegment : Segment links previous (first :: rest) next)
    (hfirst : first ∉ rest) :
    Segment (setPrevious links first other) other (first :: rest) next := by
  obtain ⟨hne, hlink, hrest⟩ := hsegment
  refine ⟨hne, ?_, hrest.congr fun element hmem => ?_⟩
  · simp [setPrevious, hlink]
  · exact Function.update_of_ne (ne_of_mem_of_not_mem hmem hfirst) _ _

theorem represents_empty (links : Links) :
    Represents links DoublyLinkedList.empty [] :=
  ⟨rfl, rfl, trivial, List.nodup_nil⟩

theorem Represents.congr {links links' : Links} {list : DoublyLinkedList}
    {elements : List ℕ} (hlist : Represents links list elements)
    (hlinks : ∀ element ∈ elements, links' element = links element) :
    Represents links' list elements :=
  ⟨hlist.head_eq, hlist.tail_eq, hlist.segment.congr hlinks, hlist.nodup⟩

theorem Represents.isEmpty_iff {links : Links} {list : DoublyLinkedList}
    {elements : List ℕ} (hlist : Represents links list elements) :
    list.isEmpty = true ↔ elements = [] := by
  rw [DoublyLinkedList.isEmpty, decide_eq_true_iff, hlist.head_eq]
  cases elements with
  | nil => simp
  | cons element rest => simp [hlist.segment.1]

/-- `Prepend` puts the element in front and touches the links of the list's
elements and of the new element only. -/
theorem Represents.prepend {links : Links} {list : DoublyLinkedList}
    {elements : List ℕ} {newElement : ℕ}
    (hlist : Represents links list elements) (hne : newElement ≠ 0)
    (hnew : newElement ∉ elements) :
    ∃ list' links', list.prepend links newElement = .ok (list', links') ∧
      Represents links' list' (newElement :: elements) ∧
      ∀ other, other ∉ newElement :: elements → links' other = links other := by
  rw [DoublyLinkedList.prepend, if_neg hne]
  cases elements with
  | nil =>
      have hhead : list.head = 0 := hlist.head_eq
      refine ⟨_, _, by simp only [hhead, ne_eq, not_true, if_false]; rfl, ?_, ?_⟩
      · exact ⟨rfl, rfl, ⟨hne, by simp, trivial⟩,
          List.nodup_singleton _⟩
      · intro other hother
        exact Function.update_of_ne (fun heq => hother (by simp [heq])) _ _
  | cons first rest =>
      have hhead : list.head = first := hlist.head_eq
      have hfirst : first ≠ 0 := hlist.segment.1
      have hdistinct : newElement ≠ first :=
        fun heq => hnew (by simp [heq])
      have hnodup := List.nodup_cons.mp hlist.nodup
      have hlinked : Segment
          (Function.update links newElement ⟨first, 0⟩) 0 (first :: rest) 0 :=
        hlist.segment.congr fun element hmem =>
          Function.update_of_ne (ne_of_mem_of_not_mem hmem hnew) _ _
      refine ⟨_, _, by simp only [hhead, ne_eq, hfirst, not_false_iff, if_true]; rfl,
        ?_, ?_⟩
      · refine ⟨rfl, hlist.tail_eq, ⟨hne, ?_, ?_⟩,
          List.nodup_cons.mpr ⟨hnew, hlist.nodup⟩⟩
        · rw [setPrevious, Function.update_of_ne hdistinct,
            Function.update_self]
          rfl
        · exact hlinked.setPrevious_head hnodup.1
      · intro other hother
        rw [setPrevious,
          Function.update_of_ne (fun heq => hother (by simp [heq])),
          Function.update_of_ne (fun heq => hother (by simp [heq]))]

/-- The first update of `Remove`: what precedes the element now ends in front
of `next`. -/
theorem Segment.relinkFront {links : Links} {front : List ℕ} {element : ℕ}
    (hsegment : Segment links 0 front element) (hnodup : front.Nodup)
    (next : ℕ) :
    let links' := if front.getLastD 0 ≠ 0 then
      setNext links (front.getLastD 0) next else links
    Segment links' 0 front next ∧
      ∀ other, other ∉ front → links' other = links other := by
  rcases List.eq_nil_or_concat' front with rfl | ⟨init, last, rfl⟩
  · exact ⟨trivial, fun other _ => rfl⟩
  · have hmem : last ∈ init ++ [last] :=
      List.mem_append_right _ (List.mem_singleton_self last)
    have hlast : last ≠ 0 := hsegment.ne_zero hmem
    have hinit : last ∉ init := fun hinit =>
      (List.nodup_append.mp hnodup).2.2 last hinit last
        (List.mem_singleton_self last) rfl
    simp only [List.getLastD_concat, ne_eq, hlast, not_false_iff, if_true]
    refine ⟨hsegment.setNext_last hinit, fun other hother => ?_⟩
    exact Function.update_of_ne (ne_of_mem_of_not_mem hmem hother).symm _ _

/-- The second update of `Remove`: what follows the element now begins behind
`previous`. -/
theorem Segment.relinkBack {links : Links} {back : List ℕ} {element : ℕ}
    (hsegment : Segment links element back 0) (hnodup : back.Nodup)
    (previous : ℕ) :
    let links' := if back.headD 0 ≠ 0 then
      setPrevious links (back.headD 0) previous else links
    Segment links' previous back 0 ∧
      ∀ other, other ∉ back → links' other = links other := by
  cases back with
  | nil => exact ⟨trivial, fun other _ => rfl⟩
  | cons first rest =>
      have hfirst : (first :: rest).headD 0 ≠ 0 := hsegment.1
      rw [if_pos hfirst]
      refine ⟨hsegment.setPrevious_head (List.nodup_cons.mp hnodup).1, ?_⟩
      intro other hother
      exact Function.update_of_ne
        (ne_of_mem_of_not_mem List.mem_cons_self hother).symm _ _

/-- `Remove` takes one element out of the sequence and touches the links of
the remaining elements only. -/
theorem Represents.remove {links : Links} {list : DoublyLinkedList}
    {front back : List ℕ} {element : ℕ}
    (hlist : Represents links list (front ++ element :: back)) :
    Represents (list.remove links element).2 (list.remove links element).1
        (front ++ back) ∧
      ∀ other, other ∉ front ++ back →
        (list.remove links element).2 other = links other := by
  obtain ⟨hfront, hne, hlink, hback⟩ := segment_append.mp hlist.segment
  have hrest : (front ++ back).Nodup :=
    hlist.nodup.sublist ((List.sublist_cons_self element back).append_left front)
  obtain ⟨hfrontNodup, hbackNodup, hapart⟩ := List.nodup_append.mp hrest
  obtain ⟨hfirst, hfirstFrame⟩ := hfront.relinkFront hfrontNodup (back.headD 0)
  have hbackKept := hback.congr fun other hmem =>
    hfirstFrame other fun hother => hapart other hother other hmem rfl
  obtain ⟨hsecond, hsecondFrame⟩ :=
    hbackKept.relinkBack hbackNodup (front.getLastD 0)
  rw [DoublyLinkedList.remove, if_neg hne, hlink]
  refine ⟨⟨?_, ?_, segment_append.mpr ⟨?_, hsecond⟩, hrest⟩, ?_⟩
  · cases front with
    | nil => rfl
    | cons first rest =>
        have hlast : (first :: rest).getLastD 0 ≠ 0 := by
          rw [List.getLastD_cons,
            ← List.getLast_eq_getLastD (List.cons_ne_nil first rest)]
          exact hfront.ne_zero (List.getLast_mem _)
        simp only [hlast, ne_eq, not_false_iff, if_true]
        exact hlist.head_eq
  · cases back with
    | nil => simp
    | cons first rest =>
        have hfirst : first ≠ 0 := hback.1
        simp only [List.headD_cons, hfirst, ne_eq, not_false_iff, if_true]
        rw [hlist.tail_eq]
        simp
  · exact hfirst.congr fun other hmem =>
      hsecondFrame other fun hother => hapart other hmem other hother rfl
  · intro other hother
    rw [List.mem_append, not_or] at hother
    exact (hsecondFrame other hother.2).trans (hfirstFrame other hother.1)

end GeexOS.DataStructures
