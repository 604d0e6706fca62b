import Mathlib.Data.List.Pairwise
import Mathlib.Data.Nat.Bitwise
import Mathlib.Data.Set.Disjoint
import Mathlib.Order.CompletePartialOrder
import Mathlib.Order.Interval.Set.Disjoint
import Mathlib.Algebra.Order.Group.Nat
import Mathlib.Algebra.Ring.Nat
import Mathlib.Tactic.Ring

/-!
# Tilings by dyadic blocks

A dyadic block has a power of two as its size and is aligned to it.  A tiling
cuts the interval below `2^n` into such blocks.  Splitting a block into its two
halves and joining two buddies keep the tiling, and a block whose buddy is not
in one piece still has a block at the buddy's start.
-/

namespace GeexOS.Dyadic

structure Block where
  start : ℕ
  order : ℕ
  deriving DecidableEq, Repr

/-- The positions a block covers. -/
def Block.range (block : Block) : Set ℕ :=
  Set.Ico block.start (block.start + 2 ^ block.order)

/-- Two blocks that share no position. -/
def Block.Apart (left right : Block) : Prop := Disjoint left.range right.range

instance : Std.Symm Block.Apart := ⟨fun _ _ hapart => Disjoint.symm hapart⟩

theorem Block.mem_range {block : Block} {position : ℕ} :
    position ∈ block.range ↔
      block.start ≤ position ∧ position < block.start + 2 ^ block.order :=
  Set.mem_Ico

theorem Block.start_mem_range (block : Block) : block.start ∈ block.range :=
  Block.mem_range.mpr ⟨le_rfl, Nat.lt_add_of_pos_right (Nat.two_pow_pos _)⟩

/-- The start of the block of the same order that `start` splits from. -/
def buddy (start order : ℕ) : ℕ := start ^^^ 2 ^ order

/-! ## Buddies -/

section Buddy

variable {start order : ℕ}

/-- Flipping bit `order` of an aligned start moves to the other half. -/
theorem buddy_of_even (haligned : 2 ^ (order + 1) ∣ start) :
    buddy start order = start + 2 ^ order := by
  obtain ⟨multiple, rfl⟩ := haligned
  have hor : 2 ^ (order + 1) * multiple + 2 ^ order =
      2 ^ (order + 1) * multiple ||| 2 ^ order :=
    Nat.two_pow_add_eq_or_of_lt (Nat.pow_lt_pow_right (by norm_num) (by omega)) _
  rw [buddy, hor]
  apply Nat.eq_of_testBit_eq
  intro bit
  have hzero : (2 ^ (order + 1) * multiple).testBit order = false := by
    rw [Nat.testBit_two_pow_mul]
    simp
  simp only [Nat.testBit_xor, Nat.testBit_or, Nat.testBit_two_pow]
  by_cases hbit : order = bit
  · subst hbit
    simp [hzero]
  · simp [hbit]

theorem buddy_buddy : buddy (buddy start order) order = start := by
  rw [buddy, buddy, Nat.xor_assoc, Nat.xor_self, Nat.xor_zero]

/-- An aligned start is the lower or the upper half of the next order. -/
theorem even_or_odd_of_dvd (haligned : 2 ^ order ∣ start) :
    2 ^ (order + 1) ∣ start ∨
      ∃ lower, 2 ^ (order + 1) ∣ lower ∧ start = lower + 2 ^ order := by
  obtain ⟨multiple, rfl⟩ := haligned
  rcases Nat.even_or_odd' multiple with ⟨half, rfl | rfl⟩
  · exact Or.inl ⟨half, by ring⟩
  · exact Or.inr ⟨2 ^ (order + 1) * half, ⟨half, rfl⟩, by ring⟩

/-- The two halves, seen from either of them. -/
theorem buddy_cases (haligned : 2 ^ order ∣ start) :
    (2 ^ (order + 1) ∣ start ∧ buddy start order = start + 2 ^ order) ∨
      (2 ^ (order + 1) ∣ buddy start order ∧
        start = buddy start order + 2 ^ order) := by
  rcases even_or_odd_of_dvd haligned with heven | ⟨lower, heven, rfl⟩
  · exact Or.inl ⟨heven, buddy_of_even heven⟩
  · have hbuddy : buddy (lower + 2 ^ order) order = lower := by
      rw [← buddy_of_even heven, buddy_buddy]
    exact Or.inr ⟨hbuddy.symm ▸ heven, by rw [hbuddy]⟩

theorem buddy_dvd (haligned : 2 ^ order ∣ start) : 2 ^ order ∣ buddy start order := by
  have hsucc : 2 ^ order ∣ 2 ^ (order + 1) := pow_dvd_pow 2 (Nat.le_succ order)
  rcases buddy_cases haligned with ⟨_, hbuddy⟩ | ⟨heven, _⟩
  · rw [hbuddy]
    exact Nat.dvd_add haligned dvd_rfl
  · exact hsucc.trans heven

theorem buddy_ne : buddy start order ≠ start := by
  intro heq
  have hxor : start ^^^ (start ^^^ 2 ^ order) = 0 := by
    rw [← buddy, heq, Nat.xor_self]
  rw [← Nat.xor_assoc, Nat.xor_self, Nat.zero_xor] at hxor
  exact absurd hxor (Nat.two_pow_pos order).ne'

/-- Both halves lie in the same interval. -/
theorem buddy_lt {n : ℕ} (haligned : 2 ^ order ∣ start) (horder : order < n)
    (hstart : start < 2 ^ n) : buddy start order + 2 ^ order ≤ 2 ^ n := by
  have hsucc : 2 ^ (order + 1) = 2 ^ order + 2 ^ order := by ring
  have hdvd : 2 ^ (order + 1) ∣ 2 ^ n := pow_dvd_pow 2 horder
  rcases buddy_cases haligned with ⟨heven, hbuddy⟩ | ⟨_, hbuddy⟩
  · have hfit : start + 2 ^ (order + 1) ≤ 2 ^ n := by
      obtain ⟨multiple, rfl⟩ := heven
      obtain ⟨total, htotal⟩ := hdvd
      rw [htotal] at hstart ⊢
      have hlt : multiple < total := lt_of_mul_lt_mul_left hstart (Nat.zero_le _)
      calc 2 ^ (order + 1) * multiple + 2 ^ (order + 1)
          = 2 ^ (order + 1) * (multiple + 1) := by ring
        _ ≤ 2 ^ (order + 1) * total := Nat.mul_le_mul_left _ hlt
    omega
  · omega

end Buddy

/-! ## Tilings -/

/-- The blocks of the list cut `[0, 2^n)` into aligned pieces. -/
structure Tiling (n : ℕ) (blocks : List Block) : Prop where
  aligned : ∀ block ∈ blocks, 2 ^ block.order ∣ block.start
  inside : ∀ block ∈ blocks, block.start + 2 ^ block.order ≤ 2 ^ n
  disjoint : blocks.Pairwise Block.Apart
  covers : ∀ position < 2 ^ n, ∃ block ∈ blocks, position ∈ block.range

variable {n : ℕ} {blocks blocks' rest : List Block} {block other : Block}

theorem Tiling.single (n : ℕ) : Tiling n [⟨0, n⟩] where
  aligned := by simp
  inside := by simp
  disjoint := List.pairwise_singleton _ _
  covers := fun position hposition =>
    ⟨⟨0, n⟩, List.mem_singleton_self _,
      Block.mem_range.mpr ⟨Nat.zero_le _, by simpa using hposition⟩⟩

theorem Tiling.perm (htiling : Tiling n blocks) (hperm : blocks.Perm blocks') :
    Tiling n blocks' where
  aligned := fun block hmem => htiling.aligned block (hperm.mem_iff.mpr hmem)
  inside := fun block hmem => htiling.inside block (hperm.mem_iff.mpr hmem)
  disjoint := (hperm.pairwise_iff fun hapart => Disjoint.symm hapart).mp htiling.disjoint
  covers := fun position hposition => by
    obtain ⟨block, hmem, hrange⟩ := htiling.covers position hposition
    exact ⟨block, hperm.mem_iff.mp hmem, hrange⟩

/-- Two blocks of a tiling that share a position are the same. -/
theorem Tiling.eq_of_mem_range (htiling : Tiling n blocks) (hblock : block ∈ blocks)
    (hother : other ∈ blocks) {position : ℕ} (hleft : position ∈ block.range)
    (hright : position ∈ other.range) : block = other := by
  by_contra hne
  have hapart : block.Apart other := htiling.disjoint.forall hblock hother hne
  exact Set.disjoint_left.mp hapart hleft hright

theorem Tiling.eq_of_start (htiling : Tiling n blocks) (hblock : block ∈ blocks)
    (hother : other ∈ blocks) (hstart : block.start = other.start) :
    block = other :=
  htiling.eq_of_mem_range hblock hother block.start_mem_range
    (hstart ▸ other.start_mem_range)

theorem Tiling.nodup (htiling : Tiling n blocks) : blocks.Nodup := by
  refine htiling.disjoint.imp fun {left right} hapart heq => ?_
  subst heq
  exact Set.disjoint_left.mp hapart left.start_mem_range left.start_mem_range

theorem Tiling.start_lt (htiling : Tiling n blocks) (hblock : block ∈ blocks) :
    block.start < 2 ^ n :=
  (Nat.lt_add_of_pos_right (Nat.two_pow_pos _)).trans_le (htiling.inside block hblock)

theorem Tiling.order_le (htiling : Tiling n blocks) (hblock : block ∈ blocks) :
    block.order ≤ n := by
  have hinside := htiling.inside block hblock
  exact (Nat.pow_le_pow_iff_right (by norm_num)).mp (le_of_add_le_right hinside)

/-- The range of a block is that of its two halves. -/
theorem range_split (start order : ℕ) :
    (Block.mk start (order + 1)).range =
      (Block.mk start order).range ∪ (Block.mk (start + 2 ^ order) order).range := by
  ext position
  simp only [Block.mem_range, Set.mem_union, pow_succ]
  omega

theorem apart_halves (start order : ℕ) :
    Block.Apart ⟨start, order⟩ ⟨start + 2 ^ order, order⟩ := by
  rw [Block.Apart, Set.disjoint_left]
  intro position hleft hright
  rw [Block.mem_range] at hleft hright
  exact absurd hleft.2 (not_lt.mpr hright.1)

/-- Cutting a block into its halves. -/
theorem Tiling.split {start order : ℕ}
    (htiling : Tiling n (⟨start, order + 1⟩ :: rest)) :
    Tiling n (⟨start, order⟩ :: ⟨start + 2 ^ order, order⟩ :: rest) := by
  have hsucc : 2 ^ (order + 1) = 2 ^ order + 2 ^ order := by ring
  have haligned := htiling.aligned _ List.mem_cons_self
  have hinside := htiling.inside _ List.mem_cons_self
  have hdvd : 2 ^ order ∣ start :=
    (pow_dvd_pow 2 (Nat.le_succ order)).trans haligned
  obtain ⟨hwhole, hrest⟩ := List.pairwise_cons.mp htiling.disjoint
  have hhalves : ∀ other ∈ rest,
      Disjoint (Block.mk start order).range other.range ∧
        Disjoint (Block.mk (start + 2 ^ order) order).range other.range := by
    intro other hmem
    have hapart := hwhole other hmem
    rw [Block.Apart, range_split, Set.disjoint_union_left] at hapart
    exact hapart
  refine ⟨?_, ?_, ?_, ?_⟩
  · intro block hmem
    rcases List.mem_cons.mp hmem with rfl | hmem
    · exact hdvd
    rcases List.mem_cons.mp hmem with rfl | hmem
    · exact Nat.dvd_add hdvd dvd_rfl
    · exact htiling.aligned block (List.mem_cons_of_mem _ hmem)
  · intro block hmem
    rcases List.mem_cons.mp hmem with rfl | hmem
    · simp only at hinside ⊢
      omega
    rcases List.mem_cons.mp hmem with rfl | hmem
    · simp only at hinside ⊢
      omega
    · exact htiling.inside block (List.mem_cons_of_mem _ hmem)
  · refine List.pairwise_cons.mpr ⟨fun other hmem => ?_,
      List.pairwise_cons.mpr ⟨fun other hmem => (hhalves other hmem).2, hrest⟩⟩
    rcases List.mem_cons.mp hmem with rfl | hmem
    · exact apart_halves start order
    · exact (hhalves other hmem).1
  · intro position hposition
    obtain ⟨block, hmem, hrange⟩ := htiling.covers position hposition
    rcases List.mem_cons.mp hmem with rfl | hmem
    · rw [range_split] at hrange
      rcases hrange with hlower | hupper
      · exact ⟨_, List.mem_cons_self, hlower⟩
      · exact ⟨_, List.mem_cons_of_mem _ List.mem_cons_self, hupper⟩
    · exact ⟨block, List.mem_cons_of_mem _ (List.mem_cons_of_mem _ hmem), hrange⟩

/-- Joining the two halves of a block. -/
theorem Tiling.join {start order : ℕ} (heven : 2 ^ (order + 1) ∣ start)
    (htiling : Tiling n (⟨start, order⟩ :: ⟨start + 2 ^ order, order⟩ :: rest)) :
    Tiling n (⟨start, order + 1⟩ :: rest) := by
  have hsucc : 2 ^ (order + 1) = 2 ^ order + 2 ^ order := by ring
  have hupper := htiling.inside _ (List.mem_cons_of_mem _ List.mem_cons_self)
  obtain ⟨hlower, htail⟩ := List.pairwise_cons.mp htiling.disjoint
  obtain ⟨hhigher, hrest⟩ := List.pairwise_cons.mp htail
  refine ⟨?_, ?_, ?_, ?_⟩
  · intro block hmem
    rcases List.mem_cons.mp hmem with rfl | hmem
    · exact heven
    · exact htiling.aligned block (List.mem_cons_of_mem _ (List.mem_cons_of_mem _ hmem))
  · intro block hmem
    rcases List.mem_cons.mp hmem with rfl | hmem
    · simp only at hupper ⊢
      omega
    · exact htiling.inside block (List.mem_cons_of_mem _ (List.mem_cons_of_mem _ hmem))
  · refine List.pairwise_cons.mpr ⟨fun other hmem => ?_, hrest⟩
    rw [Block.Apart, range_split, Set.disjoint_union_left]
    exact ⟨hlower other (List.mem_cons_of_mem _ hmem), hhigher other hmem⟩
  · intro position hposition
    obtain ⟨block, hmem, hrange⟩ := htiling.covers position hposition
    rcases List.mem_cons.mp hmem with rfl | hmem
    · exact ⟨_, List.mem_cons_self, range_split start order ▸ Or.inl hrange⟩
    rcases List.mem_cons.mp hmem with rfl | hmem
    · exact ⟨_, List.mem_cons_self, range_split start order ▸ Or.inr hrange⟩
    · exact ⟨block, List.mem_cons_of_mem _ hmem, hrange⟩

/-- Joining a block with its buddy, whichever half it is. -/
theorem Tiling.join_buddy {start order : ℕ} (haligned : 2 ^ order ∣ start)
    (htiling : Tiling n (⟨start, order⟩ :: ⟨buddy start order, order⟩ :: rest)) :
    Tiling n (⟨min start (buddy start order), order + 1⟩ :: rest) := by
  rcases buddy_cases haligned with ⟨heven, hbuddy⟩ | ⟨heven, hbuddy⟩
  · have hmin : min start (buddy start order) = start := by omega
    rw [hmin]
    rw [hbuddy] at htiling
    exact htiling.join heven
  · have hmin : min start (buddy start order) = buddy start order := by omega
    rw [hmin]
    refine Tiling.join heven (htiling.perm ?_)
    rw [← hbuddy]
    exact List.Perm.swap _ _ _

/-- A block of higher order around the buddy contains the block itself. -/
theorem start_mem_of_buddy_mem {start order : ℕ} (haligned : 2 ^ order ∣ start)
    (hother : 2 ^ other.order ∣ other.start) (horder : order < other.order)
    (hbuddy : buddy start order ∈ other.range) : start ∈ other.range := by
  have hsucc : 2 ^ (order + 1) = 2 ^ order + 2 ^ order := by ring
  have hlow : 2 ^ (order + 1) ∣ other.start := (pow_dvd_pow 2 horder).trans hother
  have hhigh : 2 ^ (order + 1) ∣ other.start + 2 ^ other.order :=
    Nat.dvd_add hlow (pow_dvd_pow 2 horder)
  rw [Block.mem_range] at hbuddy ⊢
  rcases buddy_cases haligned with ⟨heven, heq⟩ | ⟨heven, heq⟩
  · have hle : other.start ≤ start :=
      Nat.le_of_lt_add_of_dvd (by omega) hlow heven
    omega
  · have hle : buddy start order + 2 ^ (order + 1) ≤ other.start + 2 ^ other.order :=
      Nat.le_of_lt_add_of_dvd (by omega) (Nat.dvd_add heven dvd_rfl) hhigh
    have hpos := Nat.two_pow_pos order
    omega

/-- At the buddy of a block that is not the whole interval starts a block, and
it is no larger. -/
theorem Tiling.exists_at_buddy {start order : ℕ}
    (htiling : Tiling n blocks) (hmem : ⟨start, order⟩ ∈ blocks) (horder : order < n) :
    ∃ other ∈ blocks, other.start = buddy start order ∧ other.order ≤ order := by
  have haligned : 2 ^ order ∣ start := htiling.aligned _ hmem
  have hinside := buddy_lt haligned horder (htiling.start_lt hmem)
  have hpos := Nat.two_pow_pos order
  obtain ⟨other, hother, hrange⟩ := htiling.covers (buddy start order) (by omega)
  have hdvd := htiling.aligned other hother
  rcases Nat.lt_or_ge order other.order with hlarge | hsmall
  · have hinner := start_mem_of_buddy_mem haligned hdvd hlarge hrange
    have heq := htiling.eq_of_mem_range hmem hother (Block.start_mem_range _) hinner
    rw [← heq] at hlarge
    exact absurd hlarge (lt_irrefl _)
  · rw [Block.mem_range] at hrange
    have hbuddy : 2 ^ other.order ∣ buddy start order :=
      (pow_dvd_pow 2 hsmall).trans (buddy_dvd haligned)
    exact ⟨other, hother,
      le_antisymm hrange.1 (Nat.le_of_lt_add_of_dvd hrange.2 hbuddy hdvd), hsmall⟩

/-! ## Coalesced sets of blocks -/

/-- No block below the largest order has its buddy in the list. -/
def Coalesced (n : ℕ) (free : List Block) : Prop :=
  ∀ block ∈ free, block.order < n → ⟨buddy block.start block.order, block.order⟩ ∉ free

variable {free free' live : List Block}

theorem Coalesced.subset (hcoalesced : Coalesced n free) (hsubset : ∀ block ∈ free',
    block ∈ free) : Coalesced n free' :=
  fun block hmem horder hbuddy =>
    hcoalesced block (hsubset block hmem) horder (hsubset _ hbuddy)

/-- A block may join if its buddy is not there. -/
theorem Coalesced.insert (hcoalesced : Coalesced n free)
    (hblock : block.order < n → ⟨buddy block.start block.order, block.order⟩ ∉ free)
    (hperm : free'.Perm (block :: free)) : Coalesced n free' := by
  intro other hother horder hbuddy
  rw [hperm.mem_iff, List.mem_cons] at hother hbuddy
  rcases hother with rfl | hother
  · rcases hbuddy with heq | hbuddy
    · exact buddy_ne (congrArg Block.start heq)
    · exact hblock horder hbuddy
  · rcases hbuddy with heq | hbuddy
    · -- the other block is the buddy of the new one
      have hself : other = ⟨buddy block.start block.order, block.order⟩ := by
        rw [← heq, buddy_buddy]
      rw [hself] at hother horder
      exact hblock horder hother
    · exact hcoalesced other hother horder hbuddy

/-- Where no live block is met, a coalesced set has a block that is as large. -/
theorem Tiling.exists_order_ge (whole : Block) (htiling : Tiling n (free ++ live))
    (hcoalesced : Coalesced n free) (haligned : 2 ^ whole.order ∣ whole.start)
    (hinside : whole.start + 2 ^ whole.order ≤ 2 ^ n)
    (hclear : ∀ other ∈ live, whole.Apart other) :
    ∃ block ∈ free, whole.order ≤ block.order := by
  by_contra hsmall
  have hlt : ∀ block ∈ free, block.order < whole.order := by
    intro block hmem
    by_contra hge
    exact hsmall ⟨block, hmem, not_lt.mp hge⟩
  have hwhole : whole.order ≤ n := by
    have hpow : 2 ^ whole.order ≤ 2 ^ n := (Nat.le_add_left _ _).trans hinside
    exact (Nat.pow_le_pow_iff_right (by norm_num)).mp hpow
  have hfree : ∀ block ∈ free ++ live, ∀ position ∈ whole.range, position ∈ block.range →
      block ∈ free := by
    intro block hmem position hposition hrange
    rcases List.mem_append.mp hmem with hmem | hmem
    · exact hmem
    · exact absurd hrange (Set.disjoint_left.mp (hclear block hmem) hposition)
  -- a smallest block inside would have a buddy of its own order inside
  have hnone : ∀ least, ∀ block ∈ free, block.start ∈ whole.range →
      block.order ≠ least := by
    intro least
    induction least using Nat.strong_induction_on with
    | h least ih =>
        rintro ⟨start, order⟩ hmem hstart rfl
        have hblock := List.mem_append_left live hmem
        have horder := hlt _ hmem
        have hinner : buddy start order ∈ whole.range := by
          refine start_mem_of_buddy_mem (buddy_dvd (htiling.aligned _ hblock)) haligned
            horder ?_
          rw [buddy_buddy]
          exact hstart
        obtain ⟨other, hother, hotherStart, hotherOrder⟩ :=
          htiling.exists_at_buddy hblock (horder.trans_le hwhole)
        rw [← hotherStart] at hinner
        have hotherFree := hfree other hother _ hinner other.start_mem_range
        rcases Nat.lt_or_eq_of_le hotherOrder with hless | hsame
        · exact ih other.order hless other hotherFree hinner rfl
        · have heq : other = ⟨buddy start order, order⟩ := by
            rw [← hotherStart, ← hsame]
          rw [heq] at hotherFree
          exact hcoalesced _ hmem (horder.trans_le hwhole) hotherFree
  have hpos := Nat.two_pow_pos whole.order
  obtain ⟨block, hmem, hrange⟩ := htiling.covers whole.start (by omega)
  have hblock := hfree block hmem whole.start whole.start_mem_range hrange
  have hdvd : 2 ^ block.order ∣ whole.start :=
    (pow_dvd_pow 2 (hlt block hblock).le).trans haligned
  rw [Block.mem_range] at hrange
  have hstart : block.start = whole.start :=
    le_antisymm hrange.1 (Nat.le_of_lt_add_of_dvd hrange.2 hdvd (htiling.aligned block hmem))
  exact hnone block.order block hblock (hstart ▸ whole.start_mem_range) rfl

end GeexOS.Dyadic
