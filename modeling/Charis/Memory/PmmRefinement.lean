import Charis.Lib.Transition
import Charis.Memory.PmmBoot

/-!
# The page allocator as a set of pages in use

Over any sequence of allocations, frees and reservations the bitmap and its
cursor behave as a set of pages in use, as long as no reservation overflows and
no reserved page is freed.  The pages that the set starts from are what the
memory map of the firmware leaves, which is more than the memory it reports.
-/

namespace Charis.Memory

open Charis.Lib Pmm

/-- A call of the page allocator with its result. -/
inductive PmmEvent where
  | alloc (result : Nat)
  | free (address : Nat)
  | reserve (address length : Nat)
  deriving DecidableEq

/-- The allocator with what it has returned and what has been reserved. -/
structure PmmHistory where
  pmm : Pmm
  returned : List Nat
  reserved : List (Nat × Nat)

/-- A history with no calls yet. -/
def PmmHistory.start (pmm : Pmm) : PmmHistory := ⟨pmm, [], []⟩

/-- The page at `page` belongs to a range, rounded outward to page boundaries. -/
def Covers (address length page : Nat) : Prop :=
  address < page + pageSize ∧ page < address + length

instance (address length page : Nat) : Decidable (Covers address length page) :=
  inferInstanceAs (Decidable (_ ∧ _))

/-- The page has been reserved. -/
def PmmHistory.Reserved (history : PmmHistory) (page : Nat) : Prop :=
  IsPage page ∧ ∃ range ∈ history.reserved, Covers range.1 range.2 page

/-- One call of the page allocator. -/
inductive PmmStep : PmmHistory → PmmEvent → PmmHistory → Prop
  | alloc (history : PmmHistory) :
      PmmStep history (.alloc history.pmm.allocPage.1)
        { history with
          pmm := history.pmm.allocPage.2
          returned := history.pmm.allocPage.1 :: history.returned }
  | free (history : PmmHistory) (address : Nat) :
      PmmStep history (.free address) { history with pmm := history.pmm.freePage address }
  | reserve (history : PmmHistory) (address length : Nat) :
      PmmStep history (.reserve address length)
        { history with
          pmm := history.pmm.reserveRange address length
          reserved := (address, length) :: history.reserved }

/-- Only addresses that the allocator has returned are freed, each any number of
times. -/
def FreesReturned (history : PmmHistory) : PmmEvent → Prop
  | .free address => address ∈ history.returned
  | _ => True

/-- No page that has been reserved is freed, and the end of a reserved range,
rounded up, is an address of 64 bits. -/
def KeepsReserved (history : PmmHistory) : PmmEvent → Prop
  | .alloc _ => True
  | .free address => ¬ history.Reserved address
  | .reserve address length => address + length + (pageSize - 1) < 2 ^ 64

/-- The pages in use. -/
def Pmm.inUse (pmm : Pmm) : Set Nat := {page | IsPage page ∧ ¬ pmm.Available page}

/-- An allocator that is a set of pages in use. -/
inductive PageSetStep : Set Nat → PmmEvent → Set Nat → Prop
  | alloc {inUse : Set Nat} {page : Nat} :
      IsPage page → page ∉ inUse → PageSetStep inUse (.alloc page) (insert page inUse)
  | full {inUse : Set Nat} :
      (∀ page, IsPage page → page ∈ inUse) → PageSetStep inUse (.alloc 0) inUse
  | free {inUse : Set Nat} {address : Nat} :
      address ∈ inUse → PageSetStep inUse (.free address) (inUse \ {address})
  | freeAgain {inUse : Set Nat} {address : Nat} :
      address ∉ inUse → PageSetStep inUse (.free address) inUse
  | reserve {inUse : Set Nat} {address length : Nat} :
      PageSetStep inUse (.reserve address length)
        (inUse ∪ {page | IsPage page ∧ Covers address length page})

/-- What the allocator has returned are pages or zero, and reserved pages are in
use. -/
structure Orderly (history : PmmHistory) : Prop where
  returned : ∀ address ∈ history.returned, address = 0 ∨ IsPage address
  reserved : ∀ page, history.Reserved page → ¬ history.pmm.Available page

variable {history history' : PmmHistory} {event : PmmEvent} {pmm : Pmm}

theorem allocPage_complete (pmm : Pmm) :
    (∀ page, ¬ pmm.Available page) ∧ pmm.allocPage = (0, pmm) ∨
      Takes pmm pmm.allocPage.2 pmm.allocPage.1 := by
  by_cases left : ∃ page, pmm.Available page
  · obtain ⟨page, free⟩ := left
    exact .inr (takes_of_available free)
  · rcases allocPage_cases pmm with failed | taken
    · exact .inl ⟨fun page free => left ⟨page, free⟩, failed⟩
    · exact .inr taken

theorem PmmStep.orderly (step : PmmStep history event history')
    (frees : FreesReturned history event) (keeps : KeepsReserved history event)
    (orderly : Orderly history) : Orderly history' := by
  cases step with
  | alloc =>
      rcases allocPage_cases history.pmm with failed | taken
      · rw [failed]
        exact ⟨by simpa using orderly.returned, orderly.reserved⟩
      · refine ⟨?_, fun page reserved free => ?_⟩
        · simpa using ⟨.inr taken.1.isPage, orderly.returned⟩
        · exact orderly.reserved page reserved ((taken.2 page).mp free).1
  | free address =>
      refine ⟨orderly.returned, fun page reserved free => ?_⟩
      rcases orderly.returned address frees with rfl | isPage
      · rw [freePage_zero] at free
        exact orderly.reserved page reserved free
      · rcases (available_freePage isPage).mp free with before | rfl
        · exact orderly.reserved page reserved before
        · exact keeps reserved
  | reserve address length =>
  refine ⟨orderly.returned, ?_⟩
  rintro page ⟨isPage, range, member, covers⟩ free
  obtain ⟨before, away⟩ := (available_reserveRange keeps).mp free
  rcases List.mem_cons.mp member with rfl | earlier
  · exact away covers
  · exact orderly.reserved page ⟨isPage, range, earlier, covers⟩ before

theorem inUse_allocPage (taken : Takes pmm pmm.allocPage.2 pmm.allocPage.1) :
    pmm.allocPage.2.inUse = insert pmm.allocPage.1 pmm.inUse := by
  ext page
  have isPage := taken.1.isPage
  simp only [Pmm.inUse, Set.mem_ofPred_eq, Set.mem_insert_iff, taken.2]
  constructor
  · rintro ⟨isPage, unavailable⟩
    by_cases same : page = pmm.allocPage.1
    · exact .inl same
    · exact .inr ⟨isPage, fun free => unavailable ⟨free, same⟩⟩
  · rintro (rfl | ⟨isPage, unavailable⟩)
    · exact ⟨isPage, fun free => free.2 rfl⟩
    · exact ⟨isPage, fun free => unavailable free.1⟩

theorem inUse_freePage {address : Nat} (isPage : IsPage address) :
    (pmm.freePage address).inUse = pmm.inUse \ {address} := by
  ext page
  simp only [Pmm.inUse, Set.mem_ofPred_eq, Set.mem_sdiff, Set.mem_singleton_iff,
    available_freePage isPage, not_or, and_assoc]

theorem inUse_reserveRange {address length : Nat}
    (fits : address + length + (pageSize - 1) < 2 ^ 64) :
    (pmm.reserveRange address length).inUse =
      pmm.inUse ∪ {page | IsPage page ∧ Covers address length page} := by
  ext page
  simp only [Pmm.inUse, Set.mem_union, Set.mem_ofPred_eq, available_reserveRange fits, Covers]
  tauto

theorem PmmStep.simulates (step : PmmStep history event history')
    (frees : FreesReturned history event) (keeps : KeepsReserved history event)
    (orderly : Orderly history) :
    PageSetStep history.pmm.inUse event history'.pmm.inUse := by
  cases step with
  | alloc =>
      rcases allocPage_complete history.pmm with ⟨none, failed⟩ | taken
      · rw [failed]
        exact .full fun page isPage => ⟨isPage, none page⟩
      · rw [inUse_allocPage taken]
        exact .alloc taken.1.isPage fun member => member.2 taken.1
  | free address =>
      rcases orderly.returned address frees with rfl | isPage
      · rw [freePage_zero]
        exact .freeAgain fun member => absurd member.1.pos (Nat.lt_irrefl 0)
      · by_cases member : address ∈ history.pmm.inUse
        · simp only [inUse_freePage isPage]
          exact .free member
        · simp only [inUse_freePage isPage, Set.sdiff_singleton_eq_self member]
          exact .freeAgain member
  | reserve address length =>
      simp only [inUse_reserveRange keeps]
      exact .reserve

/-- In every run in which no reservation overflows and no reserved page is freed,
the allocator refines the set of pages in use, and the next allocation returns no
page that has been reserved. -/
theorem pmm_refines_page_set {start : Pmm} {events : List PmmEvent} {finish : PmmHistory}
    (run : Run (Restrict PmmStep fun history event =>
      FreesReturned history event ∧ KeepsReserved history event)
        (PmmHistory.start start) events finish) :
    Run PageSetStep start.inUse events finish.pmm.inUse ∧
      ∀ page, finish.Reserved page → finish.pmm.allocPage.1 ≠ page := by
  have initially : Orderly (PmmHistory.start start) :=
    ⟨by simp [PmmHistory.start], by simp [PmmHistory.Reserved, PmmHistory.start]⟩
  constructor
  · exact @Run.simulate _ _ _ _ _ _ _ Orderly (fun _ => True) PageSetStep
      (fun history => history.pmm.inUse)
      (fun _ _ _ orderly _ step =>
        ⟨step.2.orderly step.1.1 step.1.2 orderly, step.2.simulates step.1.1 step.1.2 orderly⟩)
      run initially (fun _ _ => trivial)
  · have orderly : Orderly finish :=
      @Run.invariant _ _ _ _ _ _ Orderly (fun _ => True)
        (fun _ _ _ orderly _ step => step.2.orderly step.1.1 step.1.2 orderly)
        run initially (fun _ _ => trivial)
    rintro page reserved rfl
    rcases allocPage_complete finish.pmm with ⟨-, failed⟩ | taken
    · have isPage := reserved.1
      rw [failed] at isPage
      exact Nat.lt_irrefl 0 isPage.pos
    · exact orderly.reserved _ reserved taken.1

/-- An allocator with no page in use. -/
def emptyPmm : Pmm := ⟨fun _ => 0#8, 0, bitmapSize_pos⟩

/-- A page is taken and given back twice, and another one is reserved. -/
theorem pmm_refines_page_set_reserve :
    ∃ finish : PmmHistory, Run PageSetStep emptyPmm.inUse
        [.alloc 0x100000, .free 0x100000, .free 0x100000, .reserve 0x101000 4096]
        finish.pmm.inUse ∧
      finish.Reserved 0x101000 ∧
      ∀ page, finish.Reserved page → finish.pmm.allocPage.1 ≠ page := by
  have page : emptyPmm.allocPage.1 = 0x100000 := by decide +kernel
  have run : Run (Restrict PmmStep fun history event =>
      FreesReturned history event ∧ KeepsReserved history event) (PmmHistory.start emptyPmm)
      [.alloc emptyPmm.allocPage.1, .free 0x100000, .free 0x100000, .reserve 0x101000 4096] _ :=
    (((Run.start.next ⟨⟨trivial, trivial⟩, .alloc _⟩).next
      ⟨⟨by simp [FreesReturned, PmmHistory.start, page], by
        simp [KeepsReserved, PmmHistory.Reserved, PmmHistory.start]⟩, .free _ _⟩).next
      ⟨⟨by simp [FreesReturned, PmmHistory.start, page], by
        simp [KeepsReserved, PmmHistory.Reserved, PmmHistory.start]⟩, .free _ _⟩).next
      ⟨⟨trivial, by simp [KeepsReserved]⟩, .reserve _ _ _⟩
  have result := pmm_refines_page_set run
  rw [page] at result
  exact ⟨_, result.1, ⟨⟨1, by decide, rfl⟩, ⟨_, List.mem_cons_self, by decide⟩⟩, result.2⟩

/-- A page that is reserved after it was freed is returned again once it is freed a
second time, and a range whose end overflows is not reserved at all. -/
theorem pmm_returns_reserved_page :
    (∃ finish, Run (Restrict PmmStep FreesReturned) (PmmHistory.start emptyPmm)
        [.alloc 0x100000, .free 0x100000, .reserve 0x100000 4096, .free 0x100000] finish ∧
      finish.Reserved 0x100000 ∧ finish.pmm.allocPage.1 = 0x100000) ∧
    ∃ finish, Run (Restrict PmmStep FreesReturned) (PmmHistory.start emptyPmm)
        [.reserve 0x100000 (2 ^ 64 - 0x100000)] finish ∧
      finish.Reserved 0x100000 ∧ finish.pmm.allocPage.1 = 0x100000 := by
  have page : emptyPmm.allocPage.1 = 0x100000 := by decide +kernel
  have isPage : IsPage 0x100000 := ⟨0, by decide, rfl⟩
  constructor
  · have run : Run (Restrict PmmStep FreesReturned) (PmmHistory.start emptyPmm)
        [.alloc emptyPmm.allocPage.1, .free 0x100000, .reserve 0x100000 4096,
          .free 0x100000] _ :=
      (((Run.start.next ⟨trivial, .alloc _⟩).next
        ⟨by simp [FreesReturned, PmmHistory.start, page], .free _ _⟩).next
        ⟨trivial, .reserve _ _ _⟩).next
        ⟨by simp [FreesReturned, PmmHistory.start, page], .free _ _⟩
    rw [page] at run
    exact ⟨_, run, ⟨isPage, _, List.mem_cons_self, by decide⟩, by decide +kernel⟩
  · have run : Run (Restrict PmmStep FreesReturned) (PmmHistory.start emptyPmm)
        [.reserve 0x100000 (2 ^ 64 - 0x100000)] _ :=
      Run.start.next ⟨trivial, .reserve _ _ _⟩
    exact ⟨_, run, ⟨isPage, _, List.mem_cons_self, by decide⟩, by decide +kernel⟩

/-- The page lies entirely inside a region of available memory. -/
def MemoryMap.Provides (map : MemoryMap) (page : Nat) : Prop :=
  ∃ region ∈ map.regions, region.Provides page

/-- Only allocations and frees, without reservations. -/
def AllocatesAndFrees (_ : PmmHistory) : PmmEvent → Prop
  | .reserve _ _ => False
  | _ => True

/-- Only allocations, and frees of addresses that the allocator has returned. -/
def FreesOwn (history : PmmHistory) : PmmEvent → Prop
  | .alloc _ => True
  | .free address => address ∈ history.returned
  | .reserve _ _ => False

/-- Every page that is ever returned in a run of such calls is one of `pages`. -/
def ReturnsOnly (guard : PmmHistory → PmmEvent → Prop) (start : Pmm) (pages : Nat → Prop) :
    Prop :=
  ∀ events finish, Run (Restrict PmmStep guard) (PmmHistory.start start) events finish →
    ∀ page, .alloc page ∈ events → page ≠ 0 → pages page

section Returned

variable {guard : PmmHistory → PmmEvent → Prop} {start : Pmm} {pages : Nat → Prop}
  {events : List PmmEvent} {finish : PmmHistory}

theorem alloc_mem_returned (run : Run (Restrict PmmStep guard) (PmmHistory.start start) events
    finish) {page : Nat} (allocated : .alloc page ∈ events) : page ∈ finish.returned := by
  induction run with
  | start => cases allocated
  | next run step ih =>
  rcases List.mem_append.mp allocated with earlier | last
  · cases step.2 with
    | alloc => exact List.mem_cons_of_mem _ (ih earlier)
    | free address => exact ih earlier
    | reserve address length => exact ih earlier
  · rw [List.mem_singleton] at last
    subst last
    cases step.2 with
    | alloc => exact List.mem_cons_self

theorem finite_available (pmm : Pmm) : {page | pmm.Available page}.Finite :=
  (Set.finite_lt_nat (2 ^ 33)).subset fun _ free => free.lt

/-- A page that is available is returned sooner or later when one allocates on. -/
theorem exists_alloc (allows : ∀ history result, guard history (.alloc result)) {page : Nat}
    (run : Run (Restrict PmmStep guard) (PmmHistory.start start) events finish)
    (free : finish.pmm.Available page) :
    ∃ events' finish', Run (Restrict PmmStep guard) (PmmHistory.start start) events' finish' ∧
      .alloc page ∈ events' := by
  -- by induction on how many pages are left
  induction left : {page | finish.pmm.Available page}.ncard using Nat.strong_induction_on
    generalizing events finish with
  | _ count ih =>
      subst left
      have taken := takes_of_available free
      have next := run.next ⟨allows finish _, .alloc finish⟩
      by_cases found : finish.pmm.allocPage.1 = page
      · exact ⟨_, _, next, by rw [found]; simp⟩
      · have fewer : {page | finish.pmm.allocPage.2.Available page}.ncard <
            {page | finish.pmm.Available page}.ncard := by
          refine Set.ncard_lt_ncard ⟨fun other kept => ((taken.2 other).mp kept).1, ?_⟩
            (finite_available _)
          intro same
          exact ((taken.2 _).mp (same taken.1)).2 rfl
        exact ih _ fewer next ((taken.2 page).mpr ⟨free, Ne.symm found⟩) rfl

/-- When only returned addresses and pages taken before are freed, the pages that are ever
returned are those that are available at the start and those taken before. -/
theorem returnsOnly_iff {taken : Nat → Prop} (taken_isPage : ∀ page, taken page → IsPage page)
    (allows : ∀ history result, guard history (.alloc result))
    (frees : ∀ history address, taken address → guard history (.free address))
    (freesOnly : ∀ history address, guard history (.free address) →
      address ∈ history.returned ∨ taken address)
    (keeps : ∀ history address length, ¬ guard history (.reserve address length)) :
    ReturnsOnly guard start pages ↔ ∀ page, start.Available page ∨ taken page → pages page := by
  constructor
  · rintro only page (free | before)
    · obtain ⟨events, finish, run, allocated⟩ := exists_alloc allows Run.start free
      exact only events finish run page allocated free.pos.ne'
    · have isPage := taken_isPage page before
      have freed : Run (Restrict PmmStep guard) (PmmHistory.start start) ([] ++ [.free page]) _ :=
        Run.start.next ⟨frees _ page before, .free _ page⟩
      obtain ⟨events, finish, run, allocated⟩ :=
        exists_alloc allows freed ((available_freePage isPage).mpr (.inr rfl))
      exact only events finish run page allocated isPage.pos.ne'
  intro all events finish run page allocated nonzero
  let known (page : Nat) : Prop := start.Available page ∨ taken page
  have kept : (∀ page, finish.pmm.Available page → known page) ∧
      ∀ page ∈ finish.returned, page = 0 ∨ known page := by
    refine @Run.invariant _ _ _ _ _ _ (fun history : PmmHistory =>
      (∀ page, history.pmm.Available page → known page) ∧
        ∀ page ∈ history.returned, page = 0 ∨ known page) (fun _ => True)
      (fun history event history' before _ step => ?_) run ⟨fun _ free => .inl free, by
        simp [PmmHistory.start]⟩ (fun _ _ => trivial)
    obtain ⟨guarded, step⟩ := step
    cases step with
    | alloc =>
        rcases allocPage_cases history.pmm with failed | taken
        · rw [failed]
          exact ⟨before.1, by simpa using before.2⟩
        · refine ⟨fun page free => before.1 page ((taken.2 page).mp free).1, ?_⟩
          simpa using ⟨.inr (before.1 _ taken.1), before.2⟩
    | free address =>
        refine ⟨fun page free => ?_, before.2⟩
        have own : address = 0 ∨ known address := by
          rcases freesOnly history address guarded with returned | taken
          · exact before.2 address returned
          · exact .inr (.inr taken)
        rcases own with rfl | own
        · rw [freePage_zero] at free
          exact before.1 page free
        · have isPage : IsPage address := own.elim (·.isPage) (taken_isPage address)
          rcases (available_freePage isPage).mp free with earlier | rfl
          · exact before.1 page earlier
          · exact own
    | reserve address length => exact (keeps history address length guarded).elim
  exact all page ((kept.2 page (alloc_mem_returned run allocated)).resolve_left nonzero)

/-- When only returned addresses are freed, the pages that are ever returned are
those that are available at the start. -/
theorem returnsOnly_of_freesOwn :
    ReturnsOnly FreesOwn start pages ↔ ∀ page, start.Available page → pages page := by
  have general := @returnsOnly_iff FreesOwn start pages (fun _ => False) (fun _ none => none.elim)
    (fun _ _ => trivial) (fun _ _ none => none.elim) (fun _ _ own => .inl own)
    (fun _ _ _ reserves => reserves)
  simpa only [or_false] using general

theorem returnsOnly_of_anyFrees :
    ReturnsOnly AllocatesAndFrees start pages ↔ ∀ page, IsPage page → pages page := by
  constructor
  · intro only page isPage
    have freed : Run (Restrict PmmStep AllocatesAndFrees) (PmmHistory.start start)
        ([] ++ [.free page]) _ := Run.start.next ⟨trivial, .free _ page⟩
    obtain ⟨events, finish, run, allocated⟩ :=
      exists_alloc (fun _ _ => trivial) freed ((available_freePage isPage).mpr (.inr rfl))
    exact only events finish run page allocated isPage.pos.ne'
  intro all events finish run page allocated nonzero
  have returned : ∀ page ∈ finish.returned, page = 0 ∨ IsPage page := by
    refine @Run.invariant _ _ _ _ _ _ (fun history : PmmHistory =>
      ∀ page ∈ history.returned, page = 0 ∨ IsPage page) (fun _ => True)
      (fun history event history' before _ step => ?_) run (by simp [PmmHistory.start])
      (fun _ _ => trivial)
    cases step.2 with
    | alloc =>
        rcases allocPage_cases history.pmm with failed | taken
        · rw [failed]
          simpa using before
        · simpa using ⟨.inr taken.1.isPage, before⟩
    | free => exact before
    | reserve => exact before
  exact all page ((returned page (alloc_mem_returned run allocated)).resolve_left nonzero)

end Returned

/-- The allocator returns only available memory if and only if every page of its
window is part of the kernel image, or falls under the walk over a region that is
not available, or lies in available memory; and if any address may be freed, only
if all of the window is available memory. -/
theorem pmm_returns_available_memory_iff (pmm : Pmm) (map : MemoryMap) (kernelEnd : Nat) :
    (ReturnsOnly FreesOwn (pmm.pmmInit map kernelEnd) map.Provides ↔
      ∀ page, IsPage page →
        page < kernelEnd ∨ (∃ region ∈ map.regions, region.Hides page) ∨ map.Provides page) ∧
    (ReturnsOnly AllocatesAndFrees (pmm.pmmInit map kernelEnd) map.Provides ↔
      ∀ page, IsPage page → map.Provides page) := by
  refine ⟨?_, returnsOnly_of_anyFrees⟩
  rw [returnsOnly_of_freesOwn]
  refine forall_congr' fun page => ?_
  rw [available_pmmInit]
  constructor
  · intro provided isPage
    by_cases kernel : page < kernelEnd
    · exact .inl kernel
    · by_cases hidden : ∃ region ∈ map.regions, region.Hides page
      · exact .inr (.inl hidden)
      · exact .inr (.inr (provided ⟨isPage, Nat.not_lt.mp kernel, fun region member hides =>
          hidden ⟨region, member, hides⟩⟩))
  · rintro covered ⟨isPage, kernel, shown⟩
    rcases covered isPage with inside | ⟨region, member, hides⟩ | provided
    · exact (Nat.not_lt.mpr kernel inside).elim
    · exact (shown region member hides).elim
    · exact provided

/-- The first megabyte as firmware reports it, and 32 KiB of memory above. -/
def smallMap : MemoryMap where
  regions := [⟨0, 0x9fc00, 1⟩, ⟨0x9fc00, 0x400, 2⟩, ⟨0xf0000, 0x10000, 2⟩, ⟨0x100000, 0x8000, 1⟩]
  length_le := by decide

/-- With a kernel image that fills the memory, the first page that the allocator
returns is one that no region of the memory map has. -/
theorem pmm_returns_page_outside_ram :
    ∃ events finish, Run (Restrict PmmStep FreesOwn)
        (PmmHistory.start (emptyPmm.pmmInit smallMap 0x108000)) events finish ∧
      .alloc 0x108000 ∈ events ∧ ¬ smallMap.Provides 0x108000 ∧
      ∀ region ∈ smallMap.regions, region.base.toNat + region.length.toNat ≤ 0x108000 := by
  have page : (emptyPmm.pmmInit smallMap 0x108000).allocPage.1 = 0x108000 := by decide +kernel
  generalize emptyPmm.pmmInit smallMap 0x108000 = pmm at page ⊢
  have run : Run (Restrict PmmStep FreesOwn) (PmmHistory.start pmm)
      ([] ++ [.alloc pmm.allocPage.1]) _ := Run.start.next ⟨trivial, .alloc _⟩
  refine ⟨_, _, run, ?_, ?_, ?_⟩
  · rw [page]
    exact List.mem_singleton_self _
  · simp [MemoryMap.Provides, smallMap, MemMapEntry.Provides, pageSize]
  · simp [smallMap]

end Charis.Memory
