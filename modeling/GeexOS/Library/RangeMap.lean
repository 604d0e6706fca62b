import Mathlib.Data.Finset.Card
import Mathlib.Data.List.Pairwise
import Mathlib.Order.Interval.Finset.Nat

/-!
# Ordered lists of ranges

Entries occupy half-open ranges of positions and lie in the list in the order
of their ranges.  Looking up a position gives the entry that occupies it.  The
gaps of an interval are the maximal stretches that no entry occupies; filling
the first one leaves fewer.
-/

namespace GeexOS.RangeMap

variable {ι : Type*} {start stop : ι → ℕ}
variable {entries front back : List ι} {entry : ι} {first last position : ℕ}

/-- Non-empty ranges, each of which ends before the next one starts. -/
structure Ordered (start stop : ι → ℕ) (entries : List ι) : Prop where
  nonempty : ∀ entry ∈ entries, start entry < stop entry
  sorted : entries.Pairwise fun left right => stop left ≤ start right

/-- The first entry that occupies the position. -/
def lookup (start stop : ι → ℕ) (entries : List ι) (position : ℕ) : Option ι :=
  entries.find? fun entry => start entry ≤ position ∧ position < stop entry

theorem lookup_eq_none_iff :
    lookup start stop entries position = none ↔
      ∀ entry ∈ entries, ¬ (start entry ≤ position ∧ position < stop entry) := by
  simp only [lookup, List.find?_eq_none, decide_eq_true_eq]

theorem lookup_eq_none_of_le (hlow : ∀ entry ∈ entries, stop entry ≤ position) :
    lookup start stop entries position = none :=
  lookup_eq_none_iff.mpr fun entry hmem hinside =>
    absurd hinside.2 (not_lt.mpr (hlow entry hmem))

theorem lookup_eq_none_of_lt (hhigh : ∀ entry ∈ entries, position < start entry) :
    lookup start stop entries position = none :=
  lookup_eq_none_iff.mpr fun entry hmem hinside =>
    absurd hinside.1 (not_le.mpr (hhigh entry hmem))

theorem lookup_append :
    lookup start stop (front ++ back) position =
      (lookup start stop front position).or (lookup start stop back position) :=
  List.find?_append

theorem lookup_cons_of_mem (hlow : start entry ≤ position) (hhigh : position < stop entry) :
    lookup start stop (entry :: entries) position = some entry :=
  List.find?_cons_of_pos (by simp [hlow, hhigh])

theorem lookup_cons_of_notMem (hout : ¬ (start entry ≤ position ∧ position < stop entry)) :
    lookup start stop (entry :: entries) position = lookup start stop entries position :=
  List.find?_cons_of_neg (by simpa using hout)

theorem Ordered.left (hordered : Ordered start stop (front ++ back)) :
    Ordered start stop front :=
  ⟨fun entry hmem => hordered.nonempty entry (List.mem_append_left _ hmem),
    (List.pairwise_append.mp hordered.sorted).1⟩

theorem Ordered.right (hordered : Ordered start stop (front ++ back)) :
    Ordered start stop back :=
  ⟨fun entry hmem => hordered.nonempty entry (List.mem_append_right _ hmem),
    (List.pairwise_append.mp hordered.sorted).2.1⟩

/-- Two entries are the same, or one ends before the other starts. -/
theorem Ordered.eq_or_apart (hordered : Ordered start stop entries) {left right : ι}
    (hleft : left ∈ entries) (hright : right ∈ entries) :
    left = right ∨ stop left ≤ start right ∨ stop right ≤ start left := by
  have hrefl : ∀ entry ∈ entries,
      entry = entry ∨ stop entry ≤ start entry ∨ stop entry ≤ start entry :=
    fun _ _ => Or.inl rfl
  have hbefore : entries.Pairwise fun left right =>
      left = right ∨ stop left ≤ start right ∨ stop right ≤ start left :=
    hordered.sorted.imp fun hbefore => Or.inr (Or.inl hbefore)
  have hflip : entries.Pairwise (flip fun left right =>
      left = right ∨ stop left ≤ start right ∨ stop right ≤ start left) :=
    hordered.sorted.imp fun hbefore => Or.inr (Or.inr hbefore)
  exact List.Pairwise.forall_of_forall_of_flip hrefl hbefore hflip hleft hright

/-- A range that fits between two parts of the list. -/
theorem Ordered.insert (hordered : Ordered start stop (front ++ back))
    (hentry : start entry < stop entry)
    (hfront : ∀ other ∈ front, stop other ≤ start entry)
    (hback : ∀ other ∈ back, stop entry ≤ start other) :
    Ordered start stop (front ++ entry :: back) := by
  obtain ⟨hleft, hright, hcross⟩ := List.pairwise_append.mp hordered.sorted
  constructor
  · intro other hmem
    rcases List.mem_append.mp hmem with hmem | hmem
    · exact hordered.nonempty other (List.mem_append_left _ hmem)
    rcases List.mem_cons.mp hmem with rfl | hmem
    · exact hentry
    · exact hordered.nonempty other (List.mem_append_right _ hmem)
  · refine List.pairwise_append.mpr ⟨hleft, List.pairwise_cons.mpr ⟨hback, hright⟩, ?_⟩
    intro left hmem right hother
    rcases List.mem_cons.mp hother with rfl | hother
    · exact hfront left hmem
    · exact hcross left hmem right hother

/-- The inserted entry occupies its own range and nothing else. -/
theorem lookup_insert (hfront : ∀ other ∈ front, stop other ≤ start entry) :
    lookup start stop (front ++ entry :: back) position =
      if start entry ≤ position ∧ position < stop entry then some entry
      else lookup start stop (front ++ back) position := by
  rw [lookup_append, lookup_append]
  split
  · rename_i hinside
    rw [lookup_eq_none_of_le fun other hmem => (hfront other hmem).trans hinside.1,
      Option.none_or, lookup_cons_of_mem hinside.1 hinside.2]
  · rename_i houtside
    rw [lookup_cons_of_notMem houtside]

/-! ## Gaps -/

/-- The positions at which the gaps of `[first, last)` start. -/
def gapStarts (start stop : ι → ℕ) (entries : List ι) (first last : ℕ) : Finset ℕ :=
  (Finset.Ico first last).filter fun position =>
    lookup start stop entries position = none ∧
      (position = first ∨ lookup start stop entries (position - 1) ≠ none)

/-- The number of gaps. -/
def gaps (start stop : ι → ℕ) (entries : List ι) (first last : ℕ) : ℕ :=
  (gapStarts start stop entries first last).card

theorem mem_gapStarts :
    position ∈ gapStarts start stop entries first last ↔
      (first ≤ position ∧ position < last) ∧ lookup start stop entries position = none ∧
        (position = first ∨ lookup start stop entries (position - 1) ≠ none) := by
  rw [gapStarts, Finset.mem_filter, Finset.mem_Ico]

/-- Filling the first gap up to an occupied position leaves one gap less. -/
theorem gaps_insert_lt (entry : ι) (hfront : ∀ other ∈ front, stop other ≤ start entry)
    (hfirst : first ≤ start entry) (hentry : start entry < stop entry)
    (hlast : start entry < last)
    (hoccupied : ∀ position, first ≤ position → position < start entry →
      lookup start stop (front ++ back) position ≠ none)
    (hfree : lookup start stop (front ++ back) (start entry) = none)
    (hnext : lookup start stop (front ++ back) (stop entry) ≠ none) :
    gaps start stop (front ++ entry :: back) (stop entry) last <
      gaps start stop (front ++ back) first last := by
  refine Finset.card_lt_card (Finset.ssubset_iff_of_subset ?_ |>.mpr
    ⟨start entry, ?_, ?_⟩)
  · intro position hposition
    rw [mem_gapStarts, lookup_insert hfront, lookup_insert hfront] at hposition
    obtain ⟨⟨hlow, hhigh⟩, hnone, hbefore⟩ := hposition
    rw [if_neg (by omega)] at hnone
    have hne : position ≠ stop entry := fun heq => hnext (heq ▸ hnone)
    rw [if_neg (by omega)] at hbefore
    exact mem_gapStarts.mpr
      ⟨⟨by omega, hhigh⟩, hnone, Or.inr (hbefore.resolve_left hne)⟩
  · refine mem_gapStarts.mpr ⟨⟨hfirst, hlast⟩, hfree, ?_⟩
    rcases hfirst.eq_or_lt with heq | hlt
    · exact Or.inl heq.symm
    · exact Or.inr (hoccupied _ (by omega) (by omega))
  · intro hmem
    have hlow := (mem_gapStarts.mp hmem).1.1
    omega

/-- An interval with a free position has a gap. -/
theorem gaps_pos_of_free (hlow : first ≤ position) (hhigh : position < last)
    (hoccupied : ∀ other, first ≤ other → other < position →
      lookup start stop entries other ≠ none)
    (hfree : lookup start stop entries position = none) :
    0 < gaps start stop entries first last := by
  refine Finset.card_pos.mpr ⟨position, mem_gapStarts.mpr ⟨⟨hlow, hhigh⟩, hfree, ?_⟩⟩
  rcases hlow.eq_or_lt with heq | hlt
  · exact Or.inl heq.symm
  · exact Or.inr (hoccupied _ (by omega) (by omega))

end GeexOS.RangeMap
