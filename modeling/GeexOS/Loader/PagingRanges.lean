import GeexOS.Loader.ElfImage

/-!
# Ranges that begin inside of a page

The loader rounds the start of a range down and its length up, each on its own.  A
range that begins inside of a page can reach one page more than its length says, and a
length in the last page of the address space is rounded up to nothing.
-/

namespace GeexOS.PageTables

open GeexOS.Words
open GeexOS.Halting
open GeexOS.PhysicalMemory
open GeexOS.Elf (freshState freshState_run)
open LoaderState

/-- The pages that the range intersects. -/
def neededPages (virtual len : ℕ) : ℕ := (virtual % 4096 + len + 4095) / 4096

/-- The pages that the loops over a range take for its length. -/
def roundedPages (len : ℕ) : ℕ := alignedLength len / 4096

/-- A range of addresses that does not wrap around. -/
structure AddressRange where
  virtual : ℕ
  len : ℕ
  len_pos : 0 < len
  len_lt : len < 2 ^ 32
  virtual_end : virtual + len ≤ 2 ^ 32

namespace AddressRange

variable (range : AddressRange)

def firstPage : ℕ := range.virtual / 4096
def needed : ℕ := neededPages range.virtual range.len
def rounded : ℕ := roundedPages range.len

theorem virtual_lt : range.virtual < 2 ^ 32 := by
  have hpos := range.len_pos
  have hend := range.virtual_end
  omega

theorem needed_le : range.firstPage + range.needed ≤ 2 ^ 20 := by
  have hend := range.virtual_end
  rw [firstPage, needed, neededPages]
  omega

theorem rounded_le_needed : range.rounded ≤ range.needed := by
  have hpos := range.len_pos
  have hlt := range.len_lt
  rw [rounded, roundedPages, needed, neededPages]
  by_cases hlen : range.len ≤ 0xFFFFF000
  · rw [alignedLength_div hlen]
    omega
  · have hlast : range.len &&& pageAlignMask = range.len / 4096 * 4096 := pageAlignDown_eq hlt
    have hunaligned : range.len % 4096 ≠ 0 := by omega
    rw [alignedLength, if_neg hunaligned, pageAlign, hlast, u32]
    omega

theorem pageIndex_eq {i : ℕ} (hi : i < range.needed) :
    pageIndex (range.virtual + 4096 * i) = range.firstPage + i := by
  have hneeded := range.needed_le
  rw [firstPage] at hneeded ⊢
  rw [pageIndex]
  omega

/-- The page of each byte, as a page of the range. -/
theorem pageIndex_byte {k : ℕ} (hk : k < range.len) :
    ∃ i < range.needed, pageIndex (range.virtual + k) = range.firstPage + i ∧
      i = (range.virtual % 4096 + k) / 4096 := by
  have hend := range.virtual_end
  refine ⟨(range.virtual % 4096 + k) / 4096, ?_, ?_, rfl⟩
  · rw [needed, neededPages]
    omega
  · rw [firstPage, pageIndex]
    omega

/-- Each page of the range has a byte of it. -/
theorem exists_byte {i : ℕ} (hi : i < range.needed) :
    ∃ k < range.len, (range.virtual % 4096 + k) / 4096 = i := by
  have hpos := range.len_pos
  rw [needed, neededPages] at hi
  exact ⟨4096 * i - range.virtual % 4096, by omega, by omega⟩

theorem forall_bytes {property : ℕ → Prop} :
    (∀ k < range.len, property (pageIndex (range.virtual + k))) ↔
      ∀ i < range.needed, property (range.firstPage + i) := by
  constructor
  · intro hbytes i hi
    obtain ⟨k, hk, hindex⟩ := range.exists_byte hi
    obtain ⟨_, _, hpage, rfl⟩ := range.pageIndex_byte hk
    rw [← hindex, ← hpage]
    exact hbytes k hk
  · intro hpages k hk
    obtain ⟨i, hi, hpage, _⟩ := range.pageIndex_byte hk
    rw [hpage]
    exact hpages i hi

end AddressRange

/-! ## The query -/

/-- The query says whether the range is free. -/
def QueryExact (state : LoaderState) (range : AddressRange) : Prop :=
  state.pagingIsRangeFreeNonPAE range.virtual range.len = true ↔
    ∀ k < range.len, state.frameOf (pageIndex (range.virtual + k)) = none

/-- The pages that are left out are free, or one that is examined is not. -/
def QuerySuffices (state : LoaderState) (range : AddressRange) : Prop :=
  (∃ i < range.rounded, state.frameOf (range.firstPage + i) ≠ none) ∨
    ∀ i, range.rounded ≤ i → i < range.needed → state.frameOf (range.firstPage + i) = none

theorem isRangeFree_iff (state : LoaderState) (range : AddressRange) :
    state.pagingIsRangeFreeNonPAE range.virtual range.len = true ↔
      ∀ i < range.rounded, state.frameOf (range.firstPage + i) = none := by
  rw [isRangeFree_eq_true_iff range.virtual_lt]
  refine forall₂_congr fun i hi => ?_
  rw [range.pageIndex_eq (hi.trans_le range.rounded_le_needed)]

/-- The query is exact exactly where the pages that it leaves out do not matter. -/
theorem queryExact_iff_suffices (state : LoaderState) (range : AddressRange) :
    QueryExact state range ↔ QuerySuffices state range := by
  have hle := range.rounded_le_needed
  rw [QueryExact, isRangeFree_iff, @AddressRange.forall_bytes range
    fun page => state.frameOf page = none]
  constructor
  · intro hexact
    by_cases hexamined : ∀ i < range.rounded, state.frameOf (range.firstPage + i) = none
    · exact Or.inr fun i _ hi => hexact.mp hexamined i hi
    · push Not at hexamined
      exact Or.inl hexamined
  · rintro (⟨i, hi, hpresent⟩ | hrest)
    · exact iff_of_false (fun hfree => hpresent (hfree i hi))
        fun hfree => hpresent (hfree i (hi.trans_le hle))
    · refine ⟨fun hexamined i hi => ?_, fun hall i hi => hall i (hi.trans_le hle)⟩
      rcases Nat.lt_or_ge i range.rounded with hlt | hge
      · exact hexamined i hlt
      · exact hrest i hge hi

/-- Only the second page is mapped. -/
def secondPageState : LoaderState :=
  { freshState with
    pageDirectory := fun index => if index = 0 then 0x1003 else 0
    tables := fun address index =>
      if address = 0x1000 ∧ index = 1 then ⟨true, true, false, 5⟩ else .zero }

/-- Two bytes around the boundary of the first two pages. -/
def twoBytes : AddressRange where
  virtual := 0xFFF
  len := 2
  len_pos := by decide
  len_lt := by decide
  virtual_end := by decide

/-- Only the first page is examined. -/
theorem twoBytes_not_queryExact :
    ¬ ∀ (state : LoaderState) (range : AddressRange), QueryExact state range := by
  intro hall
  have hfree : secondPageState.pagingIsRangeFreeNonPAE 0xFFF 2 = true := by decide
  have hpresent : secondPageState.frameOf (pageIndex (0xFFF + 1)) = some 5 := by decide
  have habsent := (hall secondPageState twoBytes).mp hfree 1 (by decide)
  rw [show twoBytes.virtual + 1 = 0xFFF + 1 from rfl, hpresent] at habsent
  cases habsent

/-! ## Mapping -/

/-- A call of `paging_mapRangeNonPAE` that returns. -/
structure MapRequest extends AddressRange where
  state : LoaderState
  physical : ℕ
  usermode : Bool
  writable : Bool
  after : LoaderState
  state_ok : DirectoryOk state
  congruent : physical % 4096 = virtual % 4096
  physical_end : physical + len ≤ 2 ^ 32
  call : state.pagingMapRangeNonPAE physical virtual len usermode writable = .ok after

namespace MapRequest

variable (request : MapRequest)

/-- The range is mapped as it should be, and nothing else. -/
structure Covers : Prop where
  flags : ∀ k < request.len, ∃ frame, request.after.entryOf (pageIndex (request.virtual + k)) =
    some ⟨true, request.writable, request.usermode, frame⟩
  translates : ∀ k < request.len,
    request.after.translate (request.virtual + k) = some (request.physical + k)
  others : ∀ address,
    (∀ k < request.len, pageIndex address ≠ pageIndex (request.virtual + k)) →
      request.after.translate address = request.state.translate address

/-- The entry of page `i` of the range. -/
def entryFor (i : ℕ) : Page :=
  ⟨true, request.writable, request.usermode, request.physical / 4096 + i⟩

/-- The pages that are left out were mapped this way before. -/
def RestMapped : Prop :=
  ∀ i, request.rounded ≤ i → i < request.needed →
    request.state.entryOf (request.firstPage + i) = some (request.entryFor i)

theorem mapped {i : ℕ} (hi : i < request.rounded) :
    request.after.entryOf (request.firstPage + i) = some (request.entryFor i) := by
  have hneeded := hi.trans_le request.rounded_le_needed
  have hend := request.physical_end
  have hcongruent := request.congruent
  have hlast := hneeded
  rw [AddressRange.needed, neededPages] at hlast
  have hpos := request.len_pos
  obtain ⟨_, _, hmapped, _⟩ := request.state_ok.mapRange_entries (by omega) request.virtual_lt
    request.len_lt request.call
  have hentry := hmapped i hi
  rw [request.pageIndex_eq hneeded] at hentry
  rw [hentry, entryFor]
  have hframe : pageIndex (request.physical + 4096 * i) = request.physical / 4096 + i := by
    rw [pageIndex]
    omega
  rw [hframe]

theorem kept {page : ℕ} (hpage : ∀ i < request.rounded, page ≠ request.firstPage + i) :
    request.after.entryOf page = request.state.entryOf page := by
  have hend := request.physical_end
  have hpos := request.len_pos
  obtain ⟨_, _, _, hothers⟩ := request.state_ok.mapRange_entries (by omega) request.virtual_lt
    request.len_lt request.call
  refine hothers page fun i hi => ?_
  rw [request.pageIndex_eq (hi.trans_le request.rounded_le_needed)]
  exact hpage i hi

/-- A page that the range does not intersect is translated as before. -/
theorem translate_others {address : ℕ}
    (hothers : ∀ k < request.len, pageIndex address ≠ pageIndex (request.virtual + k)) :
    request.after.translate address = request.state.translate address := by
  have hpages := (@AddressRange.forall_bytes request.toAddressRange
    fun page => pageIndex address ≠ page).mp hothers
  have hkept := request.kept fun i hi => hpages i (hi.trans_le request.rounded_le_needed)
  rw [LoaderState.translate, LoaderState.translate, frameOf_eq, frameOf_eq, hkept]

/-- The range is covered if every page of it has its entry. -/
theorem covers_iff_entries :
    request.Covers ↔ ∀ i < request.needed,
      request.after.entryOf (request.firstPage + i) = some (request.entryFor i) := by
  have hcongruent := request.congruent
  constructor
  · intro hcovers i hi
    obtain ⟨k, hk, hindex⟩ := request.exists_byte hi
    obtain ⟨_, _, hpage, rfl⟩ := request.pageIndex_byte hk
    obtain ⟨frame, hentry⟩ := hcovers.flags k hk
    have htranslates := hcovers.translates k hk
    rw [LoaderState.translate, frameOf_eq, hentry, Option.map_some, Option.map_some,
      Option.some.injEq] at htranslates
    dsimp only at htranslates
    rw [← hindex, ← hpage, hentry, entryFor]
    have hframe : frame = request.physical / 4096 + (request.virtual % 4096 + k) / 4096 := by
      omega
    rw [hframe]
  · intro hentries
    have hbyte : ∀ k < request.len, request.after.entryOf (pageIndex (request.virtual + k)) =
        some (request.entryFor ((request.virtual % 4096 + k) / 4096)) := by
      intro k hk
      obtain ⟨i, hi, hpage, rfl⟩ := request.pageIndex_byte hk
      rw [hpage]
      exact hentries _ hi
    refine ⟨fun k hk => ⟨_, hbyte k hk⟩, fun k hk => ?_,
      fun address => request.translate_others⟩
    rw [LoaderState.translate, frameOf_eq, hbyte k hk, Option.map_some, Option.map_some, entryFor]
    dsimp only
    congr 1
    omega

/-- The pages behind those of the rounded length keep their entries. -/
theorem kept_behind {i : ℕ} (hi : request.rounded ≤ i) :
    request.after.entryOf (request.firstPage + i) =
      request.state.entryOf (request.firstPage + i) :=
  request.kept fun j hj => by omega

theorem restMapped_of_covers (hcovers : request.Covers) : request.RestMapped := by
  intro i hi hneeded
  rw [← request.kept_behind hi]
  exact request.covers_iff_entries.mp hcovers i hneeded

theorem covers_of_restMapped (hrest : request.RestMapped) : request.Covers := by
  refine request.covers_iff_entries.mpr fun i hi => ?_
  rcases Nat.lt_or_ge i request.rounded with hlt | hge
  · exact request.mapped hlt
  · rw [request.kept_behind hge]
    exact hrest i hge hi

/-- The range is covered exactly if nothing remains to be mapped behind the pages that the
length is rounded up to. -/
theorem covers_iff_restMapped : request.Covers ↔ request.RestMapped :=
  ⟨request.restMapped_of_covers, request.covers_of_restMapped⟩

/-- The usual case: the range needs no more pages than its length. -/
theorem covers_of_needed_le (hneeded : request.needed ≤ request.rounded) : request.Covers :=
  request.covers_of_restMapped fun i hlow hhigh => by omega

end MapRequest

/-- Two bytes at the end of one page and the beginning of the next. -/
theorem twoBytes_not_covers : ¬ ∀ request : MapRequest, request.Covers := by
  intro hall
  obtain ⟨after, hcall⟩ : ∃ after,
      freshState.pagingMapRangeNonPAE 0x5FFF 0xFFF 2 false true = .ok after := ⟨_, rfl⟩
  have hcovers := hall
    { twoBytes with
      state := freshState
      physical := 0x5FFF
      usermode := false
      writable := true
      after := after
      state_ok := freshState_run.directoryOk
      congruent := by decide
      physical_end := by decide
      call := hcall }
  have hrounded : twoBytes.rounded ≤ 1 := by decide
  have hneeded : 1 < twoBytes.needed := by decide
  have habsent : freshState.entryOf (twoBytes.firstPage + 1) = none := rfl
  have hsecond := MapRequest.restMapped_of_covers _ hcovers 1 hrounded hneeded
  exact Option.some_ne_none _ (hsecond.symm.trans habsent)

end GeexOS.PageTables
