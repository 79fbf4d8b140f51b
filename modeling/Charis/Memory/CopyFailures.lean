import Charis.Memory.AddressSpaceCopy
import Charis.Memory.PmmRefinement

/-!
# Copies that run out of pages

`vmm_copy_kernel_mappings` takes a page for the PDPT, for every page directory and for
every page table below the first slot of the source, and returns as soon as there is none.
The pages that it has taken by then are linked nowhere and stay in use.
-/

namespace Charis.Memory

open Charis.Lib
open Entry

variable {base machine machine' : Machine} {target source : Nat}

/-- How many pages the allocator has left. -/
noncomputable def Pmm.left (pmm : Pmm) : Nat :=
  {page | pmm.Available page}.ncard

theorem Pmm.left_of_takes {pmm pmm' : Pmm} {page : Nat} (takes : Pmm.Takes pmm pmm' page) :
    pmm.left = pmm'.left + 1 := by
  have rest : {query | pmm'.Available query} = {query | pmm.Available query} \ {page} := by
    ext query
    exact takes.2 query
  rw [Pmm.left, Pmm.left, rest]
  exact (Set.ncard_sdiff_singleton_add_one (by exact takes.1) (finite_available pmm)).symm

theorem Pmm.left_eq_zero_iff {pmm : Pmm} : pmm.left = 0 ↔ ∀ page, ¬ pmm.Available page := by
  rw [Pmm.left, Set.ncard_eq_zero (finite_available pmm), Set.eq_empty_iff_forall_notMem]
  rfl

/-- A call succeeds by taking so many pages, or fails without a page left. -/
structure Spends (before after : Machine) (ok : Bool) (pages : Nat) : Prop where
  paid : ok = true → before.pmm.left = after.pmm.left + pages
  broke : ok = false → after.pmm.left = 0 ∧ before.pmm.left < pages

namespace Spends

theorem nothing (machine : Machine) : Spends machine machine true 0 :=
  ⟨fun _ => rfl, nofun⟩

theorem andThen {middle : Machine} {ok : Bool} {first second : Nat}
    (early : Spends machine middle true first) (late : Spends middle machine' ok second) :
    Spends machine machine' ok (first + second) := by
  have paid := early.paid rfl
  constructor
  · intro done
    have rest := late.paid done
    omega
  · intro failed
    obtain ⟨empty, few⟩ := late.broke failed
    exact ⟨empty, by omega⟩

theorem stop {first : Nat} (early : Spends machine machine' false first) (second : Nat) :
    Spends machine machine' false (first + second) := by
  refine ⟨nofun, ?_⟩
  intro _
  obtain ⟨empty, few⟩ := early.broke rfl
  exact ⟨empty, by omega⟩

end Spends

theorem forSlots_spends {body : Machine → Fin 512 → Bool × Machine} {cost : Fin 512 → Nat}
    {inv : Machine → Prop}
    (step : ∀ machine index, inv machine → inv (body machine index).2 ∧
      Spends machine (body machine index).2 (body machine index).1 (cost index))
    (slots : List (Fin 512)) (initially : inv machine) :
    inv (forSlots body machine slots).2 ∧
      Spends machine (forSlots body machine slots).2 (forSlots body machine slots).1
        (slots.map cost).sum := by
  induction slots generalizing machine with
  | nil => exact ⟨initially, Spends.nothing machine⟩
  | cons index slots ih =>
  obtain ⟨kept, spends⟩ := step machine index initially
  rw [List.map_cons, List.sum_cons, forSlots]
  rcases called : body machine index with ⟨ok, machine₁⟩
  rw [called] at kept spends
  cases ok with
  | false => exact ⟨kept, spends.stop _⟩
  | true =>
      obtain ⟨last, rest⟩ := ih kept
      exact ⟨last, spends.andThen rest⟩

/-- The entry leads to a table. -/
def linked (entry : Entry) : Bool := present entry && !huge entry

/-- The page tables below a page directory. -/
def pageTables (memory : ByteMemory) (pd : Nat) : Nat :=
  ((List.finRange 512).map fun index =>
    if linked (readEntry memory pd index) then 1 else 0).sum

/-- The page directories below a PDPT, with their page tables. -/
def pageDirectories (memory : ByteMemory) (pdpt : Nat) : Nat :=
  ((List.finRange 512).map fun index =>
    let pdpte := readEntry memory pdpt index
    if linked pdpte then 1 + pageTables memory (tableAddress pdpte) else 0).sum

/-- The tables below the first slot of a PML4. -/
def tablesBelow (memory : ByteMemory) (pml4 : Nat) : Nat :=
  let pml4e := readEntry memory pml4 0
  if present pml4e then 1 + pageDirectories memory (tableAddress pml4e) else 0

/-- The tables whose slots the copy looks at are in use, and the target is none of them. -/
structure Followed (machine : Machine) (target source : Nat) : Prop where
  aligned : source % 4096 = 0
  pdpt : present (readEntry machine.memory source 0) = true →
    ¬ machine.pmm.Available (tableAddress (readEntry machine.memory source 0)) ∧
      tableAddress (readEntry machine.memory source 0) ≠ target
  directory : present (readEntry machine.memory source 0) = true → ∀ index pdpte,
    readEntry machine.memory (tableAddress (readEntry machine.memory source 0)) index = pdpte →
    linked pdpte = true →
      ¬ machine.pmm.Available (tableAddress pdpte) ∧ tableAddress pdpte ≠ target

/-- Pages of the allocator are written, and nothing else. -/
structure Beside (base machine : Machine) : Prop where
  shrinks : ∀ page, machine.pmm.Available page → base.pmm.Available page
  kept : ∀ page, page % 4096 = 0 → ¬ base.pmm.Available page →
    ByteMemory.AgreeOn machine.memory base.memory page (page + 4096)

namespace Beside

theorem refl (machine : Machine) : Beside machine machine :=
  ⟨fun _ => id, fun _ _ _ => ByteMemory.AgreeOn.refl _ _ _⟩

theorem readEntry_eq (beside : Beside base machine) {page : Nat} (aligned : page % 4096 = 0)
    (used : ¬ base.pmm.Available page) (index : Fin 512) :
    readEntry machine.memory page index = readEntry base.memory page index :=
  readEntry_congr (beside.kept page aligned used)

/-- A table is copied to a page of the allocator. -/
theorem copy (beside : Beside base machine) {pmm : Pmm} {page : Nat}
    (takes : Pmm.Takes machine.pmm pmm page) (source : Nat) (slots : List (Fin 512)) :
    Beside base { machine with memory := copyEntries machine.memory page source slots, pmm } := by
  have new := beside.shrinks page takes.1
  constructor
  · intro other free
    exact beside.shrinks other ((takes.2 other).mp free).1
  · intro other aligned used
    have apart : other ≠ page := by
      rintro rfl
      exact used new
    have here := takes.1.aligned
    exact (agreeOn_copyEntries (by omega)).trans (beside.kept other aligned used)

/-- An entry of a page of the allocator is written. -/
theorem write (beside : Beside base machine) {page : Nat} (new : base.pmm.Available page)
    (index : Fin 512) (entry : Entry) :
    Beside base { machine with memory := writeEntry machine.memory page index entry } := by
  refine ⟨beside.shrinks, ?_⟩
  intro other aligned used
  have apart : other ≠ page := by
    rintro rfl
    exact used new
  have here := new.aligned
  exact (agreeOn_writeEntry (by omega)).trans (beside.kept other aligned used)

/-- A table is copied and linked, unless there is no page. -/
theorem cloneTable (beside : Beside base machine) {parent : Nat}
    (new : base.pmm.Available parent) (index : Fin 512) (entry : Entry) :
    Beside base (cloneTable machine parent index entry).2 ∧
      Spends machine (Memory.cloneTable machine parent index entry).2
        (Memory.cloneTable machine parent index entry).1.isSome 1 ∧
      ∀ page, (Memory.cloneTable machine parent index entry).1 = some page →
        base.pmm.Available page := by
  unfold Memory.cloneTable
  rcases allocPage_complete machine.pmm with ⟨none, failed⟩ | takes
  · rw [failed]
    have empty := Pmm.left_eq_zero_iff.mpr none
    exact ⟨beside, ⟨nofun, fun _ => ⟨empty, by rw [empty]; decide⟩⟩, nofun⟩
  · simp only [if_neg takes.1.pos.ne']
    generalize machine.pmm.allocPage.1 = phys at takes
    generalize machine.pmm.allocPage.2 = pmm at takes
    have copied := beside.copy takes (tableAddress entry) (List.finRange 512)
    generalize copyEntries machine.memory phys (tableAddress entry) (List.finRange 512) = memory
      at copied
    refine ⟨copied.write new index _, ⟨fun _ => Pmm.left_of_takes takes, nofun⟩, ?_⟩
    intro page same
    rw [← Option.some.inj same]
    exact beside.shrinks _ takes.1

theorem clonePageTable (beside : Beside base machine) {sourcePd targetPd : Nat}
    (aligned : sourcePd % 4096 = 0) (used : ¬ base.pmm.Available sourcePd)
    (new : base.pmm.Available targetPd) (index : Fin 512) :
    Beside base (clonePageTable sourcePd targetPd machine index).2 ∧
      Spends machine (Memory.clonePageTable sourcePd targetPd machine index).2
        (Memory.clonePageTable sourcePd targetPd machine index).1
        (if linked (readEntry base.memory sourcePd index) then 1 else 0) := by
  unfold Memory.clonePageTable
  simp only [beside.readEntry_eq aligned used]
  split
  · next skipped =>
    have unlinked : linked (readEntry base.memory sourcePd index) = false := by
      rw [← Bool.not_eq_true', linked, Bool.not_and, Bool.not_not]
      exact skipped
    rw [unlinked]
    exact ⟨beside, Spends.nothing machine⟩
  next follows =>
  have leads : linked (readEntry base.memory sourcePd index) = true := by
    rw [Bool.not_eq_true, ← Bool.not_eq_true', Bool.not_or, Bool.not_not] at follows
    exact follows
  rw [leads]
  obtain ⟨kept, spends, -⟩ :=
    beside.cloneTable new index (readEntry base.memory sourcePd index)
  rcases called : Memory.cloneTable machine targetPd index
    (readEntry base.memory sourcePd index) with ⟨_ | page, machine₁⟩
  · rw [called] at kept spends
    exact ⟨kept, spends⟩
  · rw [called] at kept spends
    exact ⟨kept, spends⟩

theorem clonePageDirectory (beside : Beside base machine) {sourcePdpt targetPdpt : Nat}
    (aligned : sourcePdpt % 4096 = 0) (used : ¬ base.pmm.Available sourcePdpt)
    (new : base.pmm.Available targetPdpt) (index : Fin 512)
    (below : linked (readEntry base.memory sourcePdpt index) = true →
      ¬ base.pmm.Available (tableAddress (readEntry base.memory sourcePdpt index))) :
    Beside base (clonePageDirectory sourcePdpt targetPdpt machine index).2 ∧
      Spends machine (Memory.clonePageDirectory sourcePdpt targetPdpt machine index).2
        (Memory.clonePageDirectory sourcePdpt targetPdpt machine index).1
        (if linked (readEntry base.memory sourcePdpt index) then
          1 + pageTables base.memory (tableAddress (readEntry base.memory sourcePdpt index))
        else 0) := by
  unfold Memory.clonePageDirectory
  simp only [beside.readEntry_eq aligned used]
  split
  · next skipped =>
    have unlinked : linked (readEntry base.memory sourcePdpt index) = false := by
      rw [← Bool.not_eq_true', linked, Bool.not_and, Bool.not_not]
      exact skipped
    rw [unlinked]
    exact ⟨beside, Spends.nothing machine⟩
  next follows =>
  have leads : linked (readEntry base.memory sourcePdpt index) = true := by
    rw [Bool.not_eq_true, ← Bool.not_eq_true', Bool.not_or, Bool.not_not] at follows
    exact follows
  rw [leads, if_pos rfl]
  obtain ⟨kept, spends, fresh⟩ :=
    beside.cloneTable new index (readEntry base.memory sourcePdpt index)
  rcases called : Memory.cloneTable machine targetPdpt index
    (readEntry base.memory sourcePdpt index) with ⟨_ | pd, machine₁⟩
  · rw [called] at kept spends
    exact ⟨kept, spends.stop _⟩
  · rw [called] at kept spends fresh
    have new := fresh pd rfl
    have step : ∀ machine slot, Beside base machine →
        Beside base (Memory.clonePageTable
          (tableAddress (readEntry base.memory sourcePdpt index)) pd machine slot).2 ∧ _ :=
      fun machine slot beside => clonePageTable beside (tableAddress_aligned _) (below leads)
        new slot
    obtain ⟨last, rest⟩ := forSlots_spends step (List.finRange 512) kept
    exact ⟨last, spends.andThen rest⟩

end Beside

/-! ## The whole call -/

/-- Other slots are as they were. -/
theorem readEntry_copyEntries_of_notMem {memory : ByteMemory} {page : Nat} {index : Fin 512}
    {slots : List (Fin 512)} (aligned : target % 4096 = 0) (page_aligned : page % 4096 = 0)
    (other : page ≠ target ∨ index ∉ slots) :
    readEntry (copyEntries memory target source slots) page index =
      readEntry memory page index := by
  induction slots generalizing memory with
  | nil => rfl
  | cons slot slots ih =>
  rw [copyEntries, List.foldl_cons]
  refine (ih (other.imp_right fun absent => List.not_mem_of_not_mem_cons absent)).trans ?_
  apply readEntry_writeEntry_of_ne aligned page_aligned
  intro same
  rw [Prod.mk.injEq] at same
  rcases other with apart | absent
  · exact apart same.1
  · exact absent (same.2 ▸ List.mem_cons_self)

theorem pageTables_congr {left right : ByteMemory} {pd : Nat}
    (same : ∀ index, readEntry left pd index = readEntry right pd index) :
    pageTables left pd = pageTables right pd := by
  apply congrArg List.sum
  apply List.map_congr_left
  intro index _
  rw [same index]

theorem pageDirectories_congr {left right : ByteMemory} {pdpt : Nat}
    (same : ∀ index, readEntry left pdpt index = readEntry right pdpt index)
    (below : ∀ index, linked (readEntry right pdpt index) = true → ∀ slot,
      readEntry left (tableAddress (readEntry right pdpt index)) slot =
        readEntry right (tableAddress (readEntry right pdpt index)) slot) :
    pageDirectories left pdpt = pageDirectories right pdpt := by
  apply congrArg List.sum
  apply List.map_congr_left
  intro index _
  dsimp only
  rw [same index]
  split
  · next leads => rw [pageTables_congr (below index leads)]
  · rfl

/-- The call takes a page for every table below the first slot of the source.  When there
are not so many it takes all that are left, and the first slot of the target is not
written. -/
theorem copyKernelMappings_spends (given : target ≠ 0) (aligned : target % 4096 = 0)
    (used : ¬ machine.pmm.Available target)
    (followed : Followed machine target (sourceRoot machine source)) :
    Spends machine (copyKernelMappings machine target source).2
        (copyKernelMappings machine target source).1
        (tablesBelow machine.memory (sourceRoot machine source)) ∧
      ((copyKernelMappings machine target source).1 = false →
        readEntry (copyKernelMappings machine target source).2.memory target 0 =
          readEntry machine.memory target 0) := by
  unfold copyKernelMappings tablesBelow
  rw [if_neg given]
  rw [show (if source = 0 then machine.cr3 else source) = sourceRoot machine source from rfl]
  dsimp only
  have notUpper : (0 : Fin 512) ∉ (List.finRange 512).filter fun index => 256 ≤ index.val := by
    simp
  have atTarget := @readEntry_copyEntries_of_notMem target (sourceRoot machine source)
    machine.memory target 0 _ aligned aligned (.inr notUpper)
  have top := @readEntry_copyEntries_of_notMem target (sourceRoot machine source)
    machine.memory (sourceRoot machine source) 0 _ aligned followed.aligned (.inr notUpper)
  have apart : ∀ page, page % 4096 = 0 → page ≠ target → ∀ index,
      readEntry (copyEntries machine.memory target (sourceRoot machine source)
        ((List.finRange 512).filter fun index => 256 ≤ index.val)) page index =
        readEntry machine.memory page index := by
    intro page page_aligned other index
    exact readEntry_copyEntries_of_notMem aligned page_aligned (.inl other)
  generalize copyEntries machine.memory target (sourceRoot machine source)
    ((List.finRange 512).filter fun index => 256 ≤ index.val) = shared at atTarget top apart
  rw [top]
  have below := followed.pdpt
  have directory := followed.directory
  generalize readEntry machine.memory (sourceRoot machine source) 0 = pml4e at below directory
  split
  · next absent =>
    have unused : present pml4e = false := by simpa using absent
    rw [unused]
    exact ⟨⟨fun _ => rfl, Bool.noConfusion⟩, Bool.noConfusion⟩
  next linked_ =>
  have leads : present pml4e = true := by simpa using linked_
  obtain ⟨pdptUsed, pdptApart⟩ := below leads
  rw [leads, if_pos rfl]
  rcases allocPage_complete machine.pmm with ⟨none, failed⟩ | takes
  · rw [failed]
    have empty := Pmm.left_eq_zero_iff.mpr none
    exact ⟨⟨Bool.noConfusion, fun _ => ⟨empty, by omega⟩⟩, fun _ => atTarget⟩
  rw [if_neg takes.1.pos.ne']
  generalize machine.pmm.allocPage.1 = pdpt at takes
  generalize machine.pmm.allocPage.2 = pmm at takes
  have begin : Beside { machine with memory := shared }
      { machine with
        memory := copyEntries shared pdpt (tableAddress pml4e) (List.finRange 512), pmm } :=
    (Beside.refl { machine with memory := shared }).copy takes _ _
  generalize copyEntries shared pdpt (tableAddress pml4e) (List.finRange 512) = copied at begin
  have here := apart _ (tableAddress_aligned pml4e) pdptApart
  have directoryUsed : ∀ index, linked (readEntry shared (tableAddress pml4e) index) = true →
      ¬ machine.pmm.Available (tableAddress (readEntry shared (tableAddress pml4e) index)) := by
    intro index follows
    rw [here index] at follows ⊢
    exact (directory leads index _ rfl follows).1
  have step : ∀ current index, Beside { machine with memory := shared } current →
      Beside { machine with memory := shared }
        (clonePageDirectory (tableAddress pml4e) pdpt current index).2 ∧ _ :=
    fun current index beside => beside.clonePageDirectory (tableAddress_aligned pml4e)
      pdptUsed takes.1 index (directoryUsed index)
  obtain ⟨last, rest⟩ := forSlots_spends step (List.finRange 512) begin
  have cost : pageDirectories shared (tableAddress pml4e) =
      pageDirectories machine.memory (tableAddress pml4e) := by
    apply pageDirectories_congr here
    intro index follows
    exact apart _ (tableAddress_aligned _) (directory leads index _ rfl follows).2
  have first : Spends machine { machine with memory := copied, pmm } true 1 :=
    ⟨fun _ => Pmm.left_of_takes takes, Bool.noConfusion⟩
  have total := first.andThen rest
  rw [← cost]
  have slot := last.readEntry_eq aligned used 0
  rcases called : forSlots (clonePageDirectory (tableAddress pml4e) pdpt)
    { machine with memory := copied, pmm } (List.finRange 512) with ⟨ok, final⟩
  rw [called] at total slot
  cases ok with
  | false => exact ⟨total, fun _ => slot.trans atTarget⟩
  | true => exact ⟨⟨total.paid, Bool.noConfusion⟩, Bool.noConfusion⟩

theorem inUse_eq_iff_of_left_eq_zero {pmm pmm' : Pmm} (empty : pmm'.left = 0) :
    pmm'.inUse = pmm.inUse ↔ pmm.left = 0 := by
  have none := Pmm.left_eq_zero_iff.mp empty
  rw [Pmm.left_eq_zero_iff]
  constructor
  · intro same page free
    have taken : page ∈ pmm'.inUse := ⟨free.isPage, none page⟩
    rw [same] at taken
    exact taken.2 free
  · intro none'
    ext page
    simp only [Pmm.inUse, Set.mem_ofPred_eq]
    exact and_congr_right fun _ => iff_of_true (none page) (none' page)

/-- A failing call leaves the pages in use and the first slot of the target as they were
just when there is no target, or no page at all, or so many that it does not fail. -/
theorem failed_copy_leaks_nothing_iff (aligned : target % 4096 = 0)
    (used : ¬ machine.pmm.Available target)
    (followed : Followed machine target (sourceRoot machine source)) :
    ((copyKernelMappings machine target source).1 = false →
      (copyKernelMappings machine target source).2.pmm.inUse = machine.pmm.inUse ∧
        readEntry (copyKernelMappings machine target source).2.memory target 0 =
          readEntry machine.memory target 0) ↔
    target = 0 ∨ machine.pmm.left = 0 ∨
      tablesBelow machine.memory (sourceRoot machine source) ≤ machine.pmm.left := by
  by_cases given : target = 0
  · subst given
    have result : copyKernelMappings machine 0 source = (false, machine) := by
      rw [copyKernelMappings, if_pos rfl]
    rw [result]
    exact iff_of_true (fun _ => ⟨rfl, rfl⟩) (.inl rfl)
  obtain ⟨spends, slot⟩ := copyKernelMappings_spends given aligned used followed
  cases called : (copyKernelMappings machine target source).1 with
  | true =>
      rw [called] at spends
      refine iff_of_true nofun (.inr (.inr ?_))
      have paid := spends.paid rfl
      omega
  | false =>
  rw [called] at spends
  obtain ⟨empty, few⟩ := spends.broke rfl
  have leaks := @inUse_eq_iff_of_left_eq_zero machine.pmm _ empty
  constructor
  · intro clean
    exact .inr (.inl (leaks.mp (clean rfl).1))
  · rintro (none | none | enough) _
    · exact absurd none given
    · exact ⟨leaks.mpr none, slot called⟩
    · exact absurd few (not_lt.mpr enough)

/-- A PML4 whose first slot leads to a PDPT, whose first slot leads to an empty page
directory. -/
def twoTables : ByteMemory :=
  writeEntry (writeEntry (fun _ => 0) 0x1000 0 0x2003#64) 0x2000 0 0x3003#64

/-- No page is left, apart from the first one if the bit is clear. -/
def exhaustedPmm (bit : BitVec 8) : Pmm :=
  ⟨fun byte => if byte = 0 then 0xFE#8 ||| bit else 0xFF#8, 0, bitmapSize_pos⟩

theorem readEntry_zeros (table : Nat) (index : Fin 512) :
    readEntry (fun _ => 0) table index = 0#64 := by
  have zero : ∀ width address, ByteMemory.readLE (fun _ => 0) address width = 0 := by
    intro width
    induction width with
    | zero => exact fun _ => rfl
    | succ width ih =>
        intro address
        rw [ByteMemory.readLE, ih]
        rfl
  rw [readEntry, zero]

theorem twoTables_top : readEntry twoTables 0x1000 0 = 0x2003#64 := by
  rw [twoTables, readEntry_writeEntry_of_ne (by decide) (by decide) (by decide),
    readEntry_writeEntry_self]

theorem twoTables_pdpt (index : Fin 512) :
    readEntry twoTables 0x2000 index = if index = 0 then 0x3003#64 else 0#64 := by
  rw [twoTables]
  split
  · next first => rw [first, readEntry_writeEntry_self]
  · next other =>
    rw [readEntry_writeEntry_of_ne (by decide) (by decide) (by simp [other]),
      readEntry_writeEntry_of_ne (by decide) (by decide) (by simp)]
    exact readEntry_zeros 0x2000 index

theorem twoTables_followed (bit : BitVec 8) :
    Followed ⟨twoTables, exhaustedPmm bit, 0x1000⟩ 0x4000 0x1000 := by
  have low : ∀ page < 0x100000, ¬ (exhaustedPmm bit).Available page := by
    rintro page below ⟨byte, bit, _, _, rfl, _⟩
    simp only [Pmm.pageAt, bitmapBase] at below
    omega
  have pdpt : tableAddress 0x2003#64 = 0x2000 := by decide
  constructor
  · decide
  · intro _
    rw [twoTables_top, pdpt]
    exact ⟨low _ (by decide), by decide⟩
  · intro _ index pdpte entry leads
    rw [twoTables_top, pdpt, twoTables_pdpt] at entry
    split at entry
    · rw [← entry]
      exact ⟨low _ (by decide), by decide⟩
    · rw [← entry] at leads
      cases leads

theorem le_pageDirectories {memory : ByteMemory} {pdpt : Nat} {index : Fin 512}
    (leads : linked (readEntry memory pdpt index) = true) :
    1 ≤ pageDirectories memory pdpt := by
  have member : 1 + pageTables memory (tableAddress (readEntry memory pdpt index)) ∈
      (List.finRange 512).map fun index =>
        let pdpte := readEntry memory pdpt index
        if linked pdpte then 1 + pageTables memory (tableAddress pdpte) else 0 := by
    rw [List.mem_map]
    exact ⟨index, List.mem_finRange index, if_pos leads⟩
  exact (Nat.le_add_right 1 _).trans (List.le_sum_of_mem member)

theorem two_le_tablesBelow {memory : ByteMemory} {pml4 : Nat} {index : Fin 512}
    (top : present (readEntry memory pml4 0) = true)
    (leads : linked (readEntry memory (tableAddress (readEntry memory pml4 0)) index) = true) :
    2 ≤ tablesBelow memory pml4 := by
  have directories := le_pageDirectories leads
  simp only [tablesBelow, if_pos top]
  omega

theorem twoTables_tablesBelow : 2 ≤ tablesBelow twoTables 0x1000 := by
  have pdpt : tableAddress 0x2003#64 = 0x2000 := by decide
  have top : present (readEntry twoTables 0x1000 0) = true := by
    rw [twoTables_top]
    decide
  apply two_le_tablesBelow top
  rw [twoTables_top, pdpt, twoTables_pdpt 0, if_pos rfl]
  decide

theorem exhaustedPmm_available (bit : BitVec 8) {page : Nat}
    (free : (exhaustedPmm bit).Available page) :
    page = 0x100000 ∧ bit.getLsbD 0 = false := by
  obtain ⟨byte, position, _, small, rfl, clear⟩ := free
  simp only [exhaustedPmm] at clear
  split at clear
  · next first =>
    rw [BitVec.getLsbD_or, Bool.or_eq_false_iff] at clear
    have zero : position = 0 := by
      have ones : ∀ position < 8, (0xFE#8).getLsbD position = false → position = 0 := by decide
      exact ones position small clear.1
    subst first zero
    exact ⟨rfl, clear.2⟩
  · have ones : ∀ position < 8, (0xFF#8).getLsbD position = true := by decide
    rw [ones position small] at clear
    cases clear

theorem exhaustedPmm_spends {bit : BitVec 8} (few : (exhaustedPmm bit).left < 2) :
    (copyKernelMappings ⟨twoTables, exhaustedPmm bit, 0x1000⟩ 0x4000 0).1 = false ∧
      (copyKernelMappings ⟨twoTables, exhaustedPmm bit, 0x1000⟩ 0x4000 0).2.pmm.left = 0 := by
  have used : ¬ (exhaustedPmm bit).Available 0x4000 := by
    intro free
    exact absurd (exhaustedPmm_available bit free).1 (by decide)
  have spends := (@copyKernelMappings_spends ⟨twoTables, exhaustedPmm bit, 0x1000⟩ 0x4000 0
    (by decide) (by decide) used (twoTables_followed bit)).1
  generalize copyKernelMappings ⟨twoTables, exhaustedPmm bit, 0x1000⟩ 0x4000 0 = result
    at spends ⊢
  have cost : 2 ≤ tablesBelow twoTables 0x1000 := twoTables_tablesBelow
  have failed : result.1 = false := by
    cases called : result.1 with
    | false => rfl
    | true =>
        have paid := spends.paid called
        rw [show sourceRoot ⟨twoTables, exhaustedPmm bit, 0x1000⟩ 0 = 0x1000 from rfl] at paid
        simp only at paid
        omega
  exact ⟨failed, (spends.broke failed).1⟩

/-- Without any page the call fails and takes nothing. -/
theorem failed_copy_leaks_nothing_iff_none :
    (copyKernelMappings ⟨twoTables, exhaustedPmm 1, 0x1000⟩ 0x4000 0).1 = false ∧
      (copyKernelMappings ⟨twoTables, exhaustedPmm 1, 0x1000⟩ 0x4000 0).2.pmm.inUse =
          (exhaustedPmm 1).inUse ∧
        readEntry (copyKernelMappings ⟨twoTables, exhaustedPmm 1, 0x1000⟩ 0x4000 0).2.memory
          0x4000 0 = readEntry twoTables 0x4000 0 := by
  have none : ∀ page, ¬ (exhaustedPmm 1).Available page := by
    intro page free
    exact absurd (exhaustedPmm_available 1 free).2 (by decide)
  have left := Pmm.left_eq_zero_iff.mpr none
  have failed := (exhaustedPmm_spends (left.trans_lt (by decide))).1
  exact ⟨failed, (@failed_copy_leaks_nothing_iff ⟨twoTables, exhaustedPmm 1, 0x1000⟩ 0x4000 0
    (by decide) (none 0x4000) (twoTables_followed 1)).mpr (.inr (.inl left)) failed⟩

/-- The only page is taken for the PDPT, and then there is none for the page directory. -/
theorem failed_copy_leaks_pdpt :
    (copyKernelMappings ⟨twoTables, exhaustedPmm 0, 0x1000⟩ 0x4000 0).1 = false ∧
      (copyKernelMappings ⟨twoTables, exhaustedPmm 0, 0x1000⟩ 0x4000 0).2.pmm.inUse ≠
        (exhaustedPmm 0).inUse := by
  have one : (exhaustedPmm 0).left = 1 := by
    rw [Pmm.left, Set.ncard_eq_one]
    refine ⟨0x100000, Set.ext fun page => ?_⟩
    constructor
    · intro free
      exact (exhaustedPmm_available 0 free).1
    · rintro rfl
      exact ⟨0, 0, by decide, by decide, rfl, rfl⟩
  obtain ⟨failed, empty⟩ := exhaustedPmm_spends (one.trans_lt (by decide))
  refine ⟨failed, ?_⟩
  intro same
  have zero := (inUse_eq_iff_of_left_eq_zero empty).mp same
  rw [one] at zero
  cases zero

end Charis.Memory
