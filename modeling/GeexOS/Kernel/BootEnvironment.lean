import GeexOS.Loader.BootBlock

/-!
# Memory regions by type

The kernel asks its boot environment for the descriptors of a type one after the
other: each call goes on behind the descriptor that the last one returned.
-/

namespace GeexOS.BootEnvironment

open GeexOS.Halting
open GeexOS.BootBlock
open GeexOS.Words

/-- The kernel's copy of the loader block, with the address of its array of memory
descriptors and the distance of the descriptors in it. -/
structure X86BootEnvironment where
  kernelInformation : LoaderBlock
  memoryDescriptors : ℕ
  sizeof : ℕ
  count_le : kernelInformation.memoryDescriptors.length ≤ maxMemoryDescriptors
  memoryDescriptors_ne : memoryDescriptors ≠ 0
  sizeof_pos : 0 < sizeof
  fits : memoryDescriptors + maxMemoryDescriptors * sizeof < 2 ^ 32

namespace X86BootEnvironment

/-- `kernelInformation->MemoryDescriptorCount`. -/
def memoryDescriptorCount (environment : X86BootEnvironment) : ℕ :=
  environment.kernelInformation.memoryDescriptors.length

/-- `&kernelInformation->MemoryDescriptors[i]`. -/
def address (environment : X86BootEnvironment) (i : ℕ) : ℕ :=
  environment.memoryDescriptors + i * environment.sizeof

/-- `start->Type`, of a descriptor that the loader has written. -/
def typeAt (environment : X86BootEnvironment) (start : ℕ) : Outcome ℕ :=
  match environment.kernelInformation.memoryDescriptors[
      (start - environment.memoryDescriptors) / environment.sizeof]? with
  | some descriptor => .ok descriptor.type
  | none => .error .fault

def searchLoop (environment : X86BootEnvironment) (type : ℕ) :
    (fuel start i : ℕ) → Outcome ℕ
  | 0, _, _ => .error .diverges
  | fuel + 1, start, i =>
      if i < environment.memoryDescriptorCount then do
        let found ← environment.typeAt start
        if found = type then .ok start
        else
          searchLoop environment type fuel (u32 (start + environment.sizeof))
            ((i + 1) % 2 ^ 16)
      else .ok 0

/-- `GetMemoryRegionByType`; 0 is `NULL`.  The index is a 16-bit number. -/
def getMemoryRegionByType (environment : X86BootEnvironment) (start type : ℕ) : Outcome ℕ :=
  if start = 0 ∨ (start > environment.memoryDescriptors ∧
      start < u32 (environment.memoryDescriptors +
        environment.memoryDescriptorCount * environment.sizeof)) then
    if start = 0 then
      environment.searchLoop type (2 ^ 16) environment.memoryDescriptors 0
    else
      let start := u32 (start + environment.sizeof)
      environment.searchLoop type (2 ^ 16) start
        (sub32 start environment.memoryDescriptors / environment.sizeof % 2 ^ 16)
  else .error (.assertion "start parameter out of bounds")

/-- A caller that wants all regions of a type: each region returned is the next `start`. -/
def regionsFrom (environment : X86BootEnvironment) (type : ℕ) :
    (fuel start : ℕ) → Outcome (List ℕ)
  | 0, _ => .error .diverges
  | fuel + 1, start => do
      let region ← environment.getMemoryRegionByType start type
      if region = 0 then .ok []
      else do
        let rest ← regionsFrom environment type fuel region
        .ok (region :: rest)

/-- Descriptor `i` has the type. -/
def hasType (environment : X86BootEnvironment) (type i : ℕ) : Bool :=
  environment.kernelInformation.memoryDescriptors[i]?.any (·.type == type)

/-- The descriptors of a type in their order. -/
def regionsOfType (environment : X86BootEnvironment) (type : ℕ) : List ℕ :=
  ((List.range environment.memoryDescriptorCount).filter (environment.hasType type)).map
    environment.address

/-! ## Addresses and indices -/

variable {environment : X86BootEnvironment} {type i j fuel : ℕ} {rest : List ℕ}

theorem count_lt : environment.memoryDescriptorCount < 2 ^ 16 :=
  Nat.lt_of_le_of_lt environment.count_le (by decide)

theorem address_zero : environment.address 0 = environment.memoryDescriptors := by
  rw [address, Nat.zero_mul, Nat.add_zero]

theorem address_succ (i : ℕ) :
    environment.address (i + 1) = environment.address i + environment.sizeof := by
  rw [address, address, Nat.succ_mul, Nat.add_assoc]

theorem address_ne_zero (i : ℕ) : environment.address i ≠ 0 := by
  have hne := environment.memoryDescriptors_ne
  rw [address]
  omega

theorem address_lt (hi : i ≤ environment.memoryDescriptorCount) :
    environment.address i < 2 ^ 32 := by
  refine Nat.lt_of_le_of_lt (Nat.add_le_add_left ?_ _) environment.fits
  exact Nat.mul_le_mul_right _ (Nat.le_trans hi environment.count_le)

theorem address_lt_address (hlt : i < j) : environment.address i < environment.address j :=
  Nat.add_lt_add_left (Nat.mul_lt_mul_of_pos_right hlt environment.sizeof_pos) _

theorem address_sub_div (i : ℕ) :
    (environment.address i - environment.memoryDescriptors) / environment.sizeof = i := by
  rw [address, Nat.add_sub_cancel_left, Nat.mul_div_cancel _ environment.sizeof_pos]

theorem hasType_iff : environment.hasType type i = true ↔
    ∃ descriptor, environment.kernelInformation.memoryDescriptors[i]? = some descriptor ∧
      descriptor.type = type := by
  simp [hasType, Option.any_eq_true]

/-- The descriptors that are counted can be read. -/
theorem typeAt_address (hi : i < environment.memoryDescriptorCount) :
    ∃ found, environment.typeAt (environment.address i) = .ok found ∧
      (found = type ↔ environment.hasType type i = true) := by
  have hget : environment.kernelInformation.memoryDescriptors[i]? =
      some (environment.kernelInformation.memoryDescriptors.get ⟨i, hi⟩) :=
    List.getElem?_eq_getElem hi
  refine ⟨_, by rw [typeAt, address_sub_div, hget], ?_⟩
  simp [hasType, hget]

/-! ## One search -/

/-- The descriptors of a type from an index on. -/
def indicesFrom (environment : X86BootEnvironment) (type i : ℕ) : List ℕ :=
  (List.range' i (environment.memoryDescriptorCount - i)).filter (environment.hasType type)

theorem indicesFrom_of_le (hle : environment.memoryDescriptorCount ≤ i) :
    environment.indicesFrom type i = [] := by
  rw [indicesFrom, Nat.sub_eq_zero_of_le hle]
  rfl

theorem indicesFrom_of_lt (hlt : i < environment.memoryDescriptorCount) :
    environment.indicesFrom type i =
      if environment.hasType type i then i :: environment.indicesFrom type (i + 1)
      else environment.indicesFrom type (i + 1) := by
  have hrest : environment.memoryDescriptorCount - i =
      environment.memoryDescriptorCount - (i + 1) + 1 := by omega
  rw [indicesFrom, hrest, List.range'_succ, List.filter_cons, indicesFrom]

theorem indicesFrom_length_le : (environment.indicesFrom type i).length ≤
    environment.memoryDescriptorCount - i := by
  refine Nat.le_trans (List.length_filter_le _ _) ?_
  rw [List.length_range']

/-- Behind the first descriptor of the type come those from the next index on. -/
theorem indicesFrom_cons (hcons : environment.indicesFrom type i = j :: rest) :
    i ≤ j ∧ j < environment.memoryDescriptorCount ∧ environment.hasType type j = true ∧
      rest = environment.indicesFrom type (j + 1) := by
  induction hremaining : environment.memoryDescriptorCount - i generalizing i with
  | zero =>
      rw [indicesFrom_of_le (by omega)] at hcons
      cases hcons
  | succ remaining ih =>
      have hlt : i < environment.memoryDescriptorCount := by omega
      rw [indicesFrom_of_lt hlt] at hcons
      split at hcons
      · next htype =>
          obtain ⟨rfl, rfl⟩ := List.cons.inj hcons
          exact ⟨le_rfl, hlt, htype, rfl⟩
      · obtain ⟨hle, hrest⟩ := ih hcons (by omega)
        exact ⟨by omega, hrest⟩

/-- The loop stops at the first descriptor of the type from its index on. -/
theorem searchLoop_eq (hi : i ≤ environment.memoryDescriptorCount)
    (hfuel : environment.memoryDescriptorCount - i < fuel) :
    environment.searchLoop type fuel (environment.address i) i =
      .ok ((environment.indicesFrom type i).head?.elim 0 environment.address) := by
  induction fuel generalizing i with
  | zero => omega
  | succ fuel ih =>
      have hcount := environment.count_lt
      rw [searchLoop]
      split
      · next hlt =>
          have hnext : environment.address i + environment.sizeof < 2 ^ 32 := by
            rw [← address_succ]
            exact address_lt hlt
          obtain ⟨found, htypeAt, hfound⟩ := @typeAt_address environment type i hlt
          rw [htypeAt, ok_bind, indicesFrom_of_lt hlt, u32_of_lt hnext,
            Nat.mod_eq_of_lt (by omega), ← address_succ, ih hlt (by omega),
            if_congr hfound rfl rfl]
          split <;> rfl
      · next hend =>
          rw [indicesFrom_of_le (not_lt.mp hend)]
          rfl

theorem searchLoop_start (hi : i ≤ environment.memoryDescriptorCount) :
    environment.searchLoop type (2 ^ 16) (environment.address i) i =
      .ok ((environment.indicesFrom type i).head?.elim 0 environment.address) :=
  searchLoop_eq hi (Nat.lt_of_le_of_lt (Nat.sub_le _ _) count_lt)

theorem getMemoryRegionByType_null :
    environment.getMemoryRegionByType 0 type =
      .ok ((environment.indicesFrom type 0).head?.elim 0 environment.address) := by
  rw [getMemoryRegionByType, if_pos (Or.inl rfl), if_pos rfl, ← address_zero]
  exact searchLoop_start (Nat.zero_le _)

/-- A call goes on behind the descriptor that it gets. -/
theorem getMemoryRegionByType_address (hpos : 0 < i)
    (hi : i < environment.memoryDescriptorCount) :
    environment.getMemoryRegionByType (environment.address i) type =
      .ok ((environment.indicesFrom type (i + 1)).head?.elim 0 environment.address) := by
  have hfirst : environment.memoryDescriptors < environment.address i := by
    rw [← address_zero]
    exact address_lt_address hpos
  have hlast : environment.address i < environment.address environment.memoryDescriptorCount :=
    address_lt_address hi
  have hnext : environment.address (i + 1) < 2 ^ 32 := address_lt hi
  have hnext_first : environment.memoryDescriptors ≤ environment.address (i + 1) :=
    Nat.le_add_right _ _
  have hcount := environment.count_lt
  rw [getMemoryRegionByType, ← address, u32_of_lt (address_lt le_rfl),
    if_pos (Or.inr ⟨hfirst, hlast⟩), if_neg (address_ne_zero i), ← address_succ,
    u32_of_lt hnext]
  dsimp only
  rw [sub32_of_le hnext hnext_first, address_sub_div, Nat.mod_eq_of_lt (by omega)]
  exact searchLoop_start hi

/-- The first descriptor is not accepted, although a call can have returned it. -/
theorem getMemoryRegionByType_first :
    environment.getMemoryRegionByType (environment.address 0) type =
      .error (.assertion "start parameter out of bounds") := by
  rw [getMemoryRegionByType, if_neg]
  rintro (hnull | ⟨hfirst, -⟩)
  · exact address_ne_zero 0 hnull
  · rw [address_zero] at hfirst
    exact lt_irrefl _ hfirst

/-! ## All regions of a type -/

/-- Calls that do not return the first descriptor go through all of the type. -/
theorem regionsFrom_eq {start : ℕ}
    (hsearch : environment.getMemoryRegionByType start type =
      .ok ((environment.indicesFrom type i).head?.elim 0 environment.address))
    (hfirst : 0 < i ∨ environment.hasType type 0 = false)
    (hfuel : (environment.indicesFrom type i).length < fuel) :
    environment.regionsFrom type fuel start =
      .ok ((environment.indicesFrom type i).map environment.address) := by
  induction fuel generalizing i start with
  | zero => omega
  | succ fuel ih =>
      rw [regionsFrom, hsearch, ok_bind]
      cases hindices : environment.indicesFrom type i with
      | nil => rfl
      | cons j rest =>
          obtain ⟨hle, hj, htype, rfl⟩ := indicesFrom_cons hindices
          have hpos : 0 < j := by
            rcases hfirst with hpos | hfirst
            · omega
            · refine Nat.pos_of_ne_zero ?_
              rintro rfl
              rw [hfirst] at htype
              cases htype
          rw [hindices, List.length_cons] at hfuel
          rw [List.head?_cons, Option.elim_some, if_neg (address_ne_zero j),
            ih (getMemoryRegionByType_address hpos hj) (Or.inl (Nat.succ_pos j)) (by omega),
            ok_bind, List.map_cons]

theorem regionsOfType_eq : environment.regionsOfType type =
    (environment.indicesFrom type 0).map environment.address := by
  rw [regionsOfType, indicesFrom, List.range_eq_range', Nat.sub_zero]

/-- If the first descriptor is of the type, the second call stops the kernel. -/
theorem regionsFrom_of_first (hcount : 0 < environment.memoryDescriptorCount)
    (htype : environment.hasType type 0 = true) :
    environment.regionsFrom type (fuel + 2) 0 =
      .error (.assertion "start parameter out of bounds") := by
  rw [regionsFrom, getMemoryRegionByType_null, ok_bind, indicesFrom_of_lt hcount, if_pos htype,
    List.head?_cons, Option.elim_some, if_neg (address_ne_zero 0), regionsFrom,
    getMemoryRegionByType_first]
  rfl

/-- Going from region to region gives all regions of the type, in their order and up to the
end, exactly if the first descriptor has another type. -/
theorem regionsFrom_complete_iff (hfuel : maxMemoryDescriptors < fuel) :
    environment.regionsFrom type fuel 0 = .ok (environment.regionsOfType type) ↔
      ∀ descriptor, environment.kernelInformation.memoryDescriptors[0]? = some descriptor →
        descriptor.type ≠ type := by
  have hfirst : (∀ descriptor,
      environment.kernelInformation.memoryDescriptors[0]? = some descriptor →
        descriptor.type ≠ type) ↔ environment.hasType type 0 = false := by
    rw [← Bool.not_eq_true, hasType_iff, not_exists]
    simp only [not_and]
  rw [hfirst]
  constructor
  · intro hregions
    by_contra htype
    have htype : environment.hasType type 0 = true := by simpa using htype
    obtain ⟨descriptor, hget, -⟩ := hasType_iff.mp htype
    have hcount : 0 < environment.memoryDescriptorCount :=
      (List.getElem?_eq_some_iff.mp hget).1
    have hstop : environment.regionsFrom type (fuel - 2 + 2) 0 = _ :=
      regionsFrom_of_first hcount htype
    have htwo : 2 ≤ fuel := Nat.le_trans (by decide) (Nat.le_of_lt hfuel)
    rw [Nat.sub_add_cancel htwo, hregions] at hstop
    cases hstop
  · intro htype
    have hlength : (environment.indicesFrom type 0).length < fuel :=
      calc (environment.indicesFrom type 0).length
          ≤ environment.memoryDescriptorCount - 0 := indicesFrom_length_le
        _ ≤ maxMemoryDescriptors := environment.count_le
        _ < fuel := hfuel
    rw [regionsOfType_eq]
    exact regionsFrom_eq getMemoryRegionByType_null (Or.inr htype) hlength

/-- A loader block with three descriptors, the first and the last of the same type. -/
def threeDescriptorsBlock : LoaderBlock := ⟨[⟨0, 1, 1⟩, ⟨1, 1, 2⟩, ⟨2, 1, 1⟩], 3⟩

theorem threeDescriptorsBlock_count :
    threeDescriptorsBlock.memoryDescriptors.length ≤ maxMemoryDescriptors := by decide

theorem threeDescriptors_address_ne : 0x100000 ≠ 0 := by decide

theorem threeDescriptors_sizeof_pos : 0 < 24 := by decide

theorem threeDescriptors_fits : 0x100000 + maxMemoryDescriptors * 24 < 2 ^ 32 := by decide

def threeDescriptors : X86BootEnvironment where
  kernelInformation := threeDescriptorsBlock
  memoryDescriptors := 0x100000
  sizeof := 24
  count_le := threeDescriptorsBlock_count
  memoryDescriptors_ne := threeDescriptors_address_ne
  sizeof_pos := threeDescriptors_sizeof_pos
  fits := threeDescriptors_fits

theorem regionsFrom_complete_iff_second :
    threeDescriptors.regionsFrom 2 33 0 = .ok (threeDescriptors.regionsOfType 2) ↔
      ∀ descriptor, threeDescriptors.kernelInformation.memoryDescriptors[0]? = some descriptor →
        descriptor.type ≠ 2 :=
  regionsFrom_complete_iff (by decide)

/-- The first descriptor is found and then refused. -/
theorem threeDescriptors_not_complete :
    threeDescriptors.regionsFrom 1 33 0 ≠ .ok (threeDescriptors.regionsOfType 1) := by
  have hstop : threeDescriptors.regionsFrom 1 (31 + 2) 0 =
      .error (.assertion "start parameter out of bounds") :=
    regionsFrom_of_first (by decide) (by decide)
  intro hregions
  rw [hregions] at hstop
  cases hstop

end X86BootEnvironment

end GeexOS.BootEnvironment
