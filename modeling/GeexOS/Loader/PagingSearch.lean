import GeexOS.Library.Runs
import GeexOS.Loader.PagingRanges

/-!
# The search for a free range

The loader looks for absent pages in a row, from a base address on.  The loop is to end
where its address wraps around to zero; but the address has 64 bits, so it goes through
the address space over and over, and it does not start at all from base zero.  The size
of a range that begins inside of a page is counted in whole pages.
-/

namespace GeexOS.PageTables

open GeexOS.Words
open GeexOS.Halting
open GeexOS.PhysicalMemory
open GeexOS.Runs
open GeexOS.Elf (freshState)
open LoaderState

/-- The iterations of `findFreeLoop`. -/
def LoaderState.findFreeIterations (state : LoaderState) (size : ℕ) :
    (fuel curAddr continousFreeSpace : ℕ) → ℕ
  | 0, _, _ => 0
  | fuel + 1, curAddr, continousFreeSpace =>
      if curAddr = 0 then 0
      else if continousFreeSpace ≥ size then 1
      else if state.pagingIsAddressPresentNonPAE curAddr then
        findFreeIterations state size fuel (u64 (curAddr + 4096)) 0 + 1
      else
        findFreeIterations state size fuel (u64 (curAddr + 4096))
          (u32 (continousFreeSpace + 4096)) + 1

/-- A search for a number of pages. -/
structure SearchRequest where
  state : LoaderState
  base : ℕ
  pages : ℕ
  base_lt : base < 2 ^ 32
  pages_pos : 0 < pages
  size_lt : 4096 * pages < 2 ^ 32

namespace SearchRequest

variable (request : SearchRequest)

def size : ℕ := 4096 * request.pages

/-- The value of the call. -/
def result : Outcome ℕ := request.state.pagingFindFreeRangeNonPAE request.base request.size

def iterations : ℕ := request.state.findFreeIterations request.size (2 ^ 64) request.base 0

/-- A free range in the address space, from the base on. -/
structure Suitable (address : ℕ) : Prop where
  low : request.base ≤ address
  inside : address + request.size ≤ 2 ^ 32
  free : ∀ k < request.size, request.state.frameOf (pageIndex (address + k)) = none

/-- The search ends soon, with a free range or, if there is none, with zero. -/
structure Correct : Prop where
  soon : request.iterations ≤ 2 ^ 20 + 1
  sound : ∃ found, request.result = .ok found ∧ (found ≠ 0 → request.Suitable found) ∧
    (found = 0 → ∀ address, address ≠ 0 → address % 4096 = request.base % 4096 →
      ¬ request.Suitable address)

/-- So many pages in a row are absent, from some page behind that of the base on. -/
def AbsentFrom (distance : ℕ) : Prop :=
  ∀ i < request.pages,
    request.state.frameOf (pageIndex (request.base + 4096 * (distance + i))) = none

/-- The first pages found are a range of the address space that is free as a whole. -/
structure FirstFits (distance : ℕ) : Prop where
  absent : request.AbsentFrom distance
  first : ∀ earlier < distance, ¬ request.AbsentFrom earlier
  inside : request.base + 4096 * distance + request.size ≤ 2 ^ 32
  behind : request.base % 4096 = 0 ∨ request.state.frameOf
    (pageIndex (request.base + 4096 * distance + request.size)) = none

/-- From base zero on, a range must be missing. -/
def Fits : Prop :=
  (request.base ≠ 0 ∧ ∃ distance, request.FirstFits distance) ∨
    (request.base = 0 ∧ ∀ distance, 0 < distance →
      4096 * distance + request.size ≤ 2 ^ 32 → ¬ request.AbsentFrom distance)

/-- Whether the page at a distance is absent. -/
def absent (distance : ℕ) : Bool :=
  !request.state.pagingIsAddressPresentNonPAE (request.base + 4096 * distance)

theorem absent_eq_true {distance : ℕ} :
    request.absent distance = true ↔
      request.state.frameOf (pageIndex (request.base + 4096 * distance)) = none := by
  rw [absent, isAddressPresent_eq]
  simp

theorem absentFrom_iff {distance : ℕ} :
    request.AbsentFrom distance ↔
      request.pages ≤ runBefore request.absent (distance + request.pages) := by
  rw [le_runBefore_iff, Nat.add_sub_cancel_right]
  refine Iff.trans ?_ (and_iff_right (Nat.le_add_left _ _)).symm
  exact forall₂_congr fun i _ => request.absent_eq_true.symm

/-! ## Ranges and pages -/

/-- A range is free if its whole pages are and, unless it is aligned, the one that it
ends in. -/
theorem suitable_iff {distance : ℕ} :
    request.Suitable (request.base + 4096 * distance) ↔
      request.AbsentFrom distance ∧ request.base + 4096 * distance + request.size ≤ 2 ^ 32 ∧
        (request.base % 4096 = 0 ∨ request.state.frameOf
          (pageIndex (request.base + 4096 * distance + request.size)) = none) := by
  have hsize : request.size = 4096 * request.pages := rfl
  have hpos := request.pages_pos
  constructor
  · rintro ⟨_, hinside, hfree⟩
    refine ⟨fun i hi => ?_, hinside, ?_⟩
    · have hpage := hfree (4096 * i) (by omega)
      rwa [Nat.add_assoc, ← Nat.mul_add] at hpage
    · rcases Nat.eq_zero_or_pos (request.base % 4096) with hzero | hunaligned
      · exact Or.inl hzero
      · have hlast := hfree (request.size - 1) (by omega)
        have hpage : pageIndex (request.base + 4096 * distance + (request.size - 1)) =
            pageIndex (request.base + 4096 * distance + request.size) := by
          simp only [pageIndex]
          omega
        exact Or.inr (hpage ▸ hlast)
  · rintro ⟨habsent, hinside, hbehind⟩
    refine ⟨Nat.le_add_right _ _, hinside, fun k hk => ?_⟩
    -- the byte lies in one of the counted pages or in the one behind
    rcases Nat.lt_or_ge ((request.base % 4096 + k) / 4096) request.pages with hlt | hge
    · have hpage : pageIndex (request.base + 4096 * distance + k) =
          pageIndex (request.base + 4096 * (distance + (request.base % 4096 + k) / 4096)) := by
        simp only [pageIndex]
        omega
      rw [hpage]
      exact habsent _ hlt
    · have hpage : pageIndex (request.base + 4096 * distance + k) =
          pageIndex (request.base + 4096 * distance + request.size) := by
        simp only [pageIndex]
        omega
      rw [hpage]
      exact hbehind.resolve_left (by omega)

/-! ## The loop -/

/-- As long as too few pages were absent in a row, the loop goes on. -/
theorem findFreeLoop_advance (hbase : request.base ≠ 0) {fuel rounds : ℕ}
    (hrounds : request.base + 4096 * rounds < 2 ^ 64)
    (hfew : ∀ earlier < rounds, runBefore request.absent earlier < request.pages) :
    request.state.findFreeLoop request.size (fuel + rounds) request.base 0 =
        request.state.findFreeLoop request.size fuel (request.base + 4096 * rounds)
          (4096 * runBefore request.absent rounds) ∧
      request.state.findFreeIterations request.size (fuel + rounds) request.base 0 =
        request.state.findFreeIterations request.size fuel (request.base + 4096 * rounds)
          (4096 * runBefore request.absent rounds) + rounds := by
  induction rounds generalizing fuel with
  | zero => exact ⟨rfl, rfl⟩
  | succ rounds ih =>
      have hsize := request.size_lt
      have hcount := hfew rounds (Nat.lt_succ_self rounds)
      obtain ⟨hloop, hiterations⟩ := @ih (fuel + 1) (by omega) fun earlier hlt =>
        hfew earlier (Nat.lt_succ_of_lt hlt)
      rw [← Nat.add_assoc, Nat.add_right_comm, hloop, hiterations]
      have hne : request.base + 4096 * rounds ≠ 0 := by omega
      have hmore : ¬ 4096 * runBefore request.absent rounds ≥ request.size := by
        rw [size]
        omega
      have hnext : u64 (request.base + 4096 * rounds + 4096) =
          request.base + 4096 * (rounds + 1) := by
        rw [Nat.add_assoc, ← Nat.mul_add_one]
        exact u64_of_lt hrounds
      have hroom : 4096 * (runBefore request.absent rounds + 1) < 2 ^ 32 :=
        Nat.lt_of_le_of_lt (Nat.mul_le_mul_left 4096 hcount) hsize
      have hlonger : u32 (4096 * runBefore request.absent rounds + 4096) =
          4096 * (runBefore request.absent rounds + 1) := by
        rw [← Nat.mul_add_one]
        exact u32_of_lt hroom
      rw [findFreeLoop, findFreeIterations, if_neg hne, if_neg hne, if_neg hmore, if_neg hmore,
        hnext, hlonger, runBefore]
      cases hpresent : request.state.pagingIsAddressPresentNonPAE
          (request.base + 4096 * rounds) with
      | true =>
          have habsent : request.absent rounds = false := by rw [absent, hpresent]; rfl
          simp only [habsent, if_true, Bool.false_eq_true, if_false, Nat.mul_zero]
          exact ⟨trivial, by omega⟩
      | false =>
          have habsent : request.absent rounds = true := by rw [absent, hpresent]; rfl
          simp only [habsent, if_true, Bool.false_eq_true, if_false]
          exact ⟨trivial, by omega⟩

/-- Where enough pages are absent for the first time, the loop returns. -/
theorem findFreeLoop_found (hbase : request.base ≠ 0) {fuel distance : ℕ}
    (hfuel : distance + request.pages < fuel)
    (hbound : request.base + 4096 * (distance + request.pages) < 2 ^ 64)
    (habsent : request.AbsentFrom distance)
    (hfirst : ∀ earlier < distance, ¬ request.AbsentFrom earlier) :
    request.state.findFreeLoop request.size fuel request.base 0 =
        .ok (request.base + 4096 * distance) ∧
      request.state.findFreeIterations request.size fuel request.base 0 =
        distance + request.pages + 1 := by
  have hfew : ∀ earlier < distance + request.pages,
      runBefore request.absent earlier < request.pages := by
    intro earlier hlt
    by_contra henough
    have hreached := Nat.not_lt.mp henough
    have hlong := (le_runBefore_iff.mp hreached).1
    refine hfirst (earlier - request.pages) (by omega) (request.absentFrom_iff.mpr ?_)
    rwa [Nat.sub_add_cancel hlong]
  have hcount := runBefore_eq_of_first (request.absentFrom_iff.mp habsent) hfew
  obtain ⟨less, rfl⟩ : ∃ less, fuel = less + 1 + (distance + request.pages) :=
    ⟨fuel - (distance + request.pages) - 1, by omega⟩
  obtain ⟨hloop, hiterations⟩ := @findFreeLoop_advance request hbase (less + 1) _ hbound hfew
  have hne : request.base + 4096 * (distance + request.pages) ≠ 0 := by omega
  have hsize : request.size = 4096 * request.pages := rfl
  rw [hloop, hiterations, findFreeLoop, findFreeIterations, if_neg hne, if_neg hne, hcount,
    ← hsize, if_pos le_rfl, if_pos le_rfl, sub64_of_le hbound (by omega)]
  refine ⟨?_, by omega⟩
  congr 1
  omega

/-- If nothing is found within a round through the address space, the loop is not over. -/
theorem findFreeIterations_lost (hbase : request.base ≠ 0) {fuel : ℕ} (hfuel : 2 ^ 20 + 1 < fuel)
    (hnone : ∀ distance, distance + request.pages ≤ 2 ^ 20 → ¬ request.AbsentFrom distance) :
    2 ^ 20 + 1 < request.state.findFreeIterations request.size fuel request.base 0 := by
  have hlow := request.base_lt
  have hfew : ∀ earlier < 2 ^ 20 + 1, runBefore request.absent earlier < request.pages := by
    intro earlier hlt
    by_contra henough
    have hreached := Nat.not_lt.mp henough
    have hlong := (le_runBefore_iff.mp hreached).1
    refine hnone (earlier - request.pages) (by omega) (request.absentFrom_iff.mpr ?_)
    rwa [Nat.sub_add_cancel hlong]
  obtain ⟨less, rfl⟩ : ∃ less, fuel = less + 1 + (2 ^ 20 + 1) :=
    ⟨fuel - (2 ^ 20 + 1) - 1, by omega⟩
  obtain ⟨_, hiterations⟩ :=
    @findFreeLoop_advance request hbase (less + 1) (2 ^ 20 + 1) (by omega) hfew
  have hne : request.base + 4096 * (2 ^ 20 + 1) ≠ 0 := by omega
  rw [hiterations, findFreeIterations, if_neg hne]
  split_ifs <;> omega

/-- From base zero on, nothing is searched. -/
theorem findFree_zero (hbase : request.base = 0) :
    request.result = .ok 0 ∧ request.iterations = 0 := by
  have hloop : ∀ fuel, request.state.findFreeLoop request.size (fuel + 1) 0 0 = .ok 0 ∧
      request.state.findFreeIterations request.size (fuel + 1) 0 0 = 0 := by
    intro fuel
    rw [findFreeLoop, findFreeIterations, if_pos rfl, if_pos rfl]
    exact ⟨rfl, rfl⟩
  rw [result, pagingFindFreeRangeNonPAE, iterations, hbase]
  exact hloop (2 ^ 64 - 1)

/-! ## Exactly when the search is correct -/

theorem correct_of_firstFits (hbase : request.base ≠ 0) {distance : ℕ}
    (hfits : request.FirstFits distance) : request.Correct := by
  have hinside := hfits.inside
  have hsize : request.size = 4096 * request.pages := rfl
  obtain ⟨hloop, hiterations⟩ := @findFreeLoop_found request hbase (2 ^ 64) distance
    (by omega) (by omega) hfits.absent hfits.first
  refine ⟨?_, request.base + 4096 * distance, hloop, fun _ => ?_, fun hzero => by omega⟩
  · rw [iterations, hiterations]
    omega
  · exact request.suitable_iff.mpr ⟨hfits.absent, hinside, hfits.behind⟩

theorem firstFits_of_correct (hbase : request.base ≠ 0) (hcorrect : request.Correct) :
    ∃ distance, request.FirstFits distance := by
  have hlow := request.base_lt
  by_cases hsome : ∃ distance, distance + request.pages ≤ 2 ^ 20 ∧ request.AbsentFrom distance
  · classical
    have hfirst : ∀ earlier < Nat.find hsome, ¬ request.AbsentFrom earlier := by
      intro earlier hlt habsent
      have hbound := (Nat.find_spec hsome).1
      exact Nat.find_min hsome hlt ⟨by omega, habsent⟩
    obtain ⟨hbound, habsent⟩ := Nat.find_spec hsome
    obtain ⟨hloop, _⟩ := @findFreeLoop_found request hbase (2 ^ 64) (Nat.find hsome)
      (by omega) (by omega) habsent hfirst
    obtain ⟨found, hresult, hsuitable, _⟩ := hcorrect.sound
    obtain rfl := Except.ok.inj (hloop.symm.trans hresult)
    obtain ⟨_, hinside, hbehind⟩ := request.suitable_iff.mp (hsuitable (by omega))
    exact ⟨_, habsent, hfirst, hinside, hbehind⟩
  · push Not at hsome
    have hlost := @findFreeIterations_lost request hbase (2 ^ 64) (by norm_num) hsome
    exact absurd hcorrect.soon (Nat.not_le.mpr hlost)

/-- From base zero on zero is returned at once. -/
theorem correct_zero_iff (hbase : request.base = 0) :
    request.Correct ↔ ∀ distance, 0 < distance → 4096 * distance + request.size ≤ 2 ^ 32 →
      ¬ request.AbsentFrom distance := by
  obtain ⟨hresult, hiterations⟩ := request.findFree_zero hbase
  have hsuitable : ∀ distance, request.Suitable (4096 * distance) ↔
      request.AbsentFrom distance ∧ 4096 * distance + request.size ≤ 2 ^ 32 := by
    intro distance
    have hexact := @suitable_iff request distance
    simpa only [hbase, Nat.zero_add, Nat.zero_mod, true_or, and_true] using hexact
  constructor
  · intro hcorrect distance hpos hinside habsent
    obtain ⟨found, hfound, _, hnone⟩ := hcorrect.sound
    obtain rfl := Except.ok.inj (hresult.symm.trans hfound)
    exact hnone rfl (4096 * distance) (by omega) (by rw [hbase]; omega)
      ((hsuitable distance).mpr ⟨habsent, hinside⟩)
  · intro hnone
    refine ⟨by rw [hiterations]; exact Nat.zero_le _, 0, hresult, fun hne => absurd rfl hne,
      fun _ address hne haligned haddress => ?_⟩
    obtain ⟨distance, rfl⟩ : ∃ distance, address = 4096 * distance := by
      rw [hbase, Nat.zero_mod] at haligned
      exact ⟨address / 4096, by omega⟩
    obtain ⟨habsent, hinside⟩ := (hsuitable distance).mp haddress
    exact hnone distance (by omega) hinside habsent

/-- The search is correct exactly if the first pages found fit or, from base zero on, if
there is nothing to be found. -/
theorem correct_iff_fits : request.Correct ↔ request.Fits := by
  by_cases hbase : request.base = 0
  · rw [Fits, or_iff_right fun hother => hother.1 hbase, and_iff_right hbase]
    exact request.correct_zero_iff hbase
  · rw [Fits, or_iff_left fun hother => hbase hother.1, and_iff_right hbase]
    exact ⟨request.firstFits_of_correct hbase,
      fun hexists => hexists.elim fun _ hfits => request.correct_of_firstFits hbase hfits⟩

end SearchRequest

/-- Only the first page is mapped. -/
def firstPageState : LoaderState :=
  { freshState with
    pageDirectory := fun index => if index = 0 then 0x1003 else 0
    tables := fun address index =>
      if address = 0x1000 ∧ index = 0 then ⟨true, true, false, 5⟩ else .zero }

/-- A page is searched from address zero on. -/
def zeroBase : SearchRequest where
  state := firstPageState
  base := 0
  pages := 1
  base_lt := by decide
  pages_pos := by decide
  size_lt := by decide

/-- The next page is free, but it is not found. -/
theorem zeroBase_not_correct : ¬ ∀ request : SearchRequest, request.Correct := by
  intro hall
  refine (zeroBase.correct_zero_iff rfl).mp (hall zeroBase) 1 (by decide) (by decide) fun i hi => ?_
  obtain rfl : i = 0 := Nat.lt_one_iff.mp hi
  decide

end GeexOS.PageTables
