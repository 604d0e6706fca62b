import GeexOS.Kernel.Paging

/-!
# Sequences of mapping and unmapping

After any sequence of calls a page translates as the last call on it says, no
matter which pages share its table and which tables were made on the way.
-/

namespace GeexOS.Paging

open GeexOS.Halting
open X86Paging

inductive PagingOperation where
  | map (virt phys : ℕ) (readwrite usermode : Bool)
  | unmap (virt : ℕ)
  deriving DecidableEq, Repr

namespace PagingOperation

def virt : PagingOperation → ℕ
  | .map virt _ _ _ => virt
  | .unmap virt => virt

def apply (paging : X86Paging) : PagingOperation → Outcome X86Paging
  | .map virt phys readwrite usermode => paging.mapAddress virt phys readwrite usermode
  | .unmap virt => paging.unmapAddress virt

end PagingOperation

/-- One operation after the other. -/
def runOperations (operations : List PagingOperation) (paging : X86Paging) :
    Outcome X86Paging :=
  operations.foldlM PagingOperation.apply paging

/-- The last operation on a page. -/
def lastOperation (operations : List PagingOperation) (page : ℕ) :
    Option PagingOperation :=
  operations.reverse.find? fun operation => pageOf operation.virt = page

/-- How the entry of a page follows from the last operation on it. -/
def Reflects (before after : Option X86Page) : Option PagingOperation → Prop
  | some (.map _ phys readwrite usermode) =>
      ∃ entry, after = some entry ∧ entry.frameAddress = phys &&& 0xFFFFF000 ∧
        entry.rw = readwrite ∧ entry.user = usermode
  | some (.unmap _) => after = none
  | none => after = before

variable {paging paging' : X86Paging}

theorem lastOperation_cons (operation : PagingOperation) (rest : List PagingOperation)
    (page : ℕ) : lastOperation (operation :: rest) page =
      (lastOperation rest page).or
        (if pageOf operation.virt = page then some operation else none) := by
  rw [lastOperation, List.reverse_cons, List.find?_append]
  congr 1
  by_cases hpage : pageOf operation.virt = page <;> simp [hpage]

/-- One operation changes the entry of its page. -/
theorem WellFormed.apply (hpaging : WellFormed paging) {operation : PagingOperation}
    (hvirt : operation.virt < 2 ^ 32) :
    ∃ paging', operation.apply paging = .ok paging' ∧ WellFormed paging' ∧
      ∀ page < 2 ^ 20, Reflects (entryOf paging page) (entryOf paging' page)
        (if pageOf operation.virt = page then some operation else none) := by
  cases operation with
  | map virt phys readwrite usermode =>
      obtain ⟨paging', entry, hcall, hpaging', hframe, hrw, huser, hentries⟩ :=
        hpaging.mapAddress hvirt phys readwrite usermode
      refine ⟨paging', hcall, hpaging', fun page hpage => ?_⟩
      rw [hentries page hpage]
      by_cases heq : pageOf (PagingOperation.map virt phys readwrite usermode).virt = page
      · rw [if_pos heq, if_pos heq.symm]
        exact ⟨entry, rfl, hframe, hrw, huser⟩
      · rw [if_neg heq, if_neg (Ne.symm heq)]
        rfl
  | unmap virt =>
      obtain ⟨paging', hcall, hpaging', hentries⟩ := hpaging.unmapAddress hvirt
      refine ⟨paging', hcall, hpaging', fun page hpage => ?_⟩
      rw [hentries page hpage]
      by_cases heq : pageOf (PagingOperation.unmap virt).virt = page
      · rw [if_pos heq, if_pos heq.symm]
        rfl
      · rw [if_neg heq, if_neg (Ne.symm heq)]
        rfl

theorem Reflects.trans {before middle after : Option X86Page}
    {first second : Option PagingOperation} (hfirst : Reflects before middle first)
    (hsecond : Reflects middle after second) : Reflects before after (second.or first) := by
  cases second with
  | some operation =>
      rw [Option.some_or]
      cases operation <;> exact hsecond
  | none =>
      have hsame : after = middle := hsecond
      rw [Option.none_or, hsame]
      exact hfirst

theorem WellFormed.run (hpaging : WellFormed paging) {operations : List PagingOperation}
    (hvirt : ∀ operation ∈ operations, operation.virt < 2 ^ 32) :
    ∃ paging', runOperations operations paging = .ok paging' ∧ WellFormed paging' ∧
      ∀ page < 2 ^ 20, Reflects (entryOf paging page) (entryOf paging' page)
        (lastOperation operations page) := by
  induction operations generalizing paging with
  | nil => exact ⟨paging, rfl, hpaging, fun _ _ => rfl⟩
  | cons operation rest ih =>
      obtain ⟨middle, hcall, hmiddle, hfirst⟩ :=
        hpaging.apply (hvirt operation List.mem_cons_self)
      obtain ⟨paging', hrest, hpaging', hlater⟩ :=
        ih hmiddle fun other hmem => hvirt other (List.mem_cons_of_mem _ hmem)
      refine ⟨paging', ?_, hpaging', fun page hpage => ?_⟩
      · rw [runOperations, List.foldlM_cons, hcall, ok_bind]
        exact hrest
      · rw [lastOperation_cons]
        exact (hfirst page hpage).trans (hlater page hpage)

/-- How the translation of an address follows from the last operation on its
page. -/
def Translates (before after : X86Paging) (address : ℕ) : Option PagingOperation → Prop
  | some (.map _ phys _ _) =>
      after.getPhysicalAddress address = (phys &&& 0xFFFFF000) + (address &&& 0xFFF) ∧
        after.isPresent address = true
  | some (.unmap _) =>
      after.getPhysicalAddress address = 0 ∧ after.isPresent address = false
  | none =>
      after.getPhysicalAddress address = before.getPhysicalAddress address ∧
        after.isPresent address = before.isPresent address ∧
        (before.isPresent address = false → after.getPhysicalAddress address = 0)

theorem Reflects.translates {address : ℕ} {last : Option PagingOperation}
    (hbefore : WellFormed paging) (hafter : WellFormed paging') (haddress : address < 2 ^ 32)
    (hreflects : Reflects (entryOf paging (pageOf address)) (entryOf paging' (pageOf address))
      last) : Translates paging paging' address last := by
  have hphysical := getPhysicalAddress_eq paging' address
  have hpresent := hafter.isPresent_eq haddress
  cases last with
  | some operation =>
      cases operation with
      | map virt phys readwrite usermode =>
          obtain ⟨entry, hentry, hframe, _, _⟩ := hreflects
          rw [hentry] at hphysical hpresent
          exact ⟨hframe ▸ hphysical, hpresent⟩
      | unmap virt =>
          have hnone : entryOf paging' (pageOf address) = none := hreflects
          rw [hnone] at hphysical hpresent
          exact ⟨hphysical, hpresent⟩
  | none =>
      have hsame : entryOf paging' (pageOf address) = entryOf paging (pageOf address) :=
        hreflects
      rw [hsame] at hphysical hpresent
      refine ⟨hphysical.trans (getPhysicalAddress_eq paging address).symm,
        hpresent.trans (hbefore.isPresent_eq haddress).symm, fun habsent => ?_⟩
      rw [hbefore.isPresent_eq haddress, Option.isSome_eq_false_iff,
        Option.isNone_iff_eq_none] at habsent
      rw [hphysical, habsent]

/-- After any sequence of calls an address translates as the last operation on
its page says. -/
theorem translates_of_run {operations : List PagingOperation} (hpaging : WellFormed paging)
    (hvirt : ∀ operation ∈ operations, operation.virt < 2 ^ 32) :
    ∃ paging', runOperations operations paging = .ok paging' ∧
      ∀ address < 2 ^ 32,
        Translates paging paging' address (lastOperation operations (pageOf address)) := by
  obtain ⟨paging', hrun, hpaging', hreflects⟩ := hpaging.run hvirt
  exact ⟨paging', hrun, fun address haddress =>
    (hreflects _ (pageOf_lt haddress)).translates hpaging hpaging' haddress⟩

/-- An empty directory in which two pages of one table are mapped and the first
of them is unmapped. -/
theorem translates_of_run_twoPages :
    ∃ paging', runOperations [.map 0x400000 0x1000 true false, .map 0x401000 0x2000 true false,
        .unmap 0x400000] (newDirectory (fun _ _ => X86Page.zero) fun call => call + 1) =
        .ok paging' ∧
      ∀ address < 2 ^ 32, Translates
        (newDirectory (fun _ _ => X86Page.zero) fun call => call + 1) paging' address
        (lastOperation [.map 0x400000 0x1000 true false, .map 0x401000 0x2000 true false,
          .unmap 0x400000] (pageOf address)) :=
  translates_of_run
    (wellFormed_newDirectory _ (fun call => Nat.succ_ne_zero call) Nat.succ_injective)
    (by decide)

end GeexOS.Paging
