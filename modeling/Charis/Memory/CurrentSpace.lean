import Charis.Memory.AddressSpaceRefinement

/-!
# Mapping into the current address space

The page-fault handler, the heap and the framebuffer map pages with `vmm_map_page`, which
works on the root in use.  It is an older copy of `vmm_map_page_pml4`: a large leaf is taken
for a link to a page table, and the entries above a user page keep their user bits.
-/

namespace Charis.Memory

open Charis.Lib
open Charis.Lib.RadixTree
open Entry

/-- `vmm_map_page`. -/
def mapPage (machine : Machine) (virt phys : Nat) (flags : Entry) : Bool × Machine :=
  let pml4 := machine.cr3
  match getOrCreateTable machine pml4 (pml4Index virt) 0 with
  | (false, machine) => (false, machine)
  | (true, machine) =>
      let pdpt := tableAddress (readEntry machine.memory pml4 (pml4Index virt))
      match getOrCreateTable machine pdpt (pdptIndex virt) 0 with
      | (false, machine) => (false, machine)
      | (true, machine) =>
          let pd := tableAddress (readEntry machine.memory pdpt (pdptIndex virt))
          match getOrCreateTable machine pd (pdIndex virt) 0 with
          | (false, machine) => (false, machine)
          | (true, machine) =>
              let pt := tableAddress (readEntry machine.memory pd (pdIndex virt))
              (true, { machine with
                memory := writeEntry machine.memory pt (ptIndex virt) (leafEntry phys flags) })

/-- The page-fault branch of `idt_dispatch_handler`: whether the faulting instruction is
tried again.  The low bits of the error code say that the page was present, that the access
was a write and that it came from user mode. -/
def handlePageFault (machine : Machine) (errorCode : BitVec 64) (cr2 : Nat) : Bool × Machine :=
  if errorCode.getLsbD 0 then (false, machine)
  else
    let (phys, pmm) := machine.pmm.allocPage
    if phys = 0 then (false, { machine with pmm })
    else
      mapPage { machine with pmm } (cr2 / pageSize * pageSize) phys
        (0x02#64 ||| if errorCode.getLsbD 2 then 0x04#64 else 0#64)

/-- The first three steps of both mappers: the tables above a page, created on demand. -/
def reachDirectory (machine : Machine) (pml4 virt : Nat) : Option (Nat × Nat) × Machine :=
  match getOrCreateTable machine pml4 (pml4Index virt) 0 with
  | (false, machine) => (none, machine)
  | (true, machine) =>
      let pdpt := tableAddress (readEntry machine.memory pml4 (pml4Index virt))
      match getOrCreateTable machine pdpt (pdptIndex virt) 0 with
      | (false, machine) => (none, machine)
      | (true, machine) =>
          let pd := tableAddress (readEntry machine.memory pdpt (pdptIndex virt))
          match getOrCreateTable machine pd (pdIndex virt) 0 with
          | (false, machine) => (none, machine)
          | (true, machine) => (some (pdpt, pd), machine)

section Shared

variable {machine machine' : Machine} {root virt phys pdpt pd : Nat} {flags : Entry}

theorem mapPage_eq : mapPage machine virt phys flags =
    match reachDirectory machine machine.cr3 virt with
    | (none, machine') => (false, machine')
    | (some (_, pd), machine') =>
        (true, machine'.setEntry (tableAddress (readEntry machine'.memory pd (pdIndex virt)))
          (ptIndex virt) (leafEntry phys flags)) := by
  simp only [mapPage, reachDirectory]
  rcases getOrCreateTable machine machine.cr3 (pml4Index virt) 0 with ⟨_ | _, machine₁⟩
  · rfl
  dsimp only
  rcases getOrCreateTable machine₁ _ (pdptIndex virt) 0 with ⟨_ | _, machine₂⟩
  · rfl
  dsimp only
  rcases getOrCreateTable machine₂ _ (pdIndex virt) 0 with ⟨_ | _, machine₃⟩
  · rfl
  · rfl

theorem mapPagePml4_eq (nonzero : root ≠ 0) : mapPagePml4 machine root virt phys flags =
    match reachDirectory machine root virt with
    | (none, machine') => (false, machine')
    | (some (pdpt, pd), machine') =>
        if huge (readEntry machine'.memory pd (pdIndex virt)) then
          match splitHugePage machine' pd (pdIndex virt)
              (readEntry machine'.memory pd (pdIndex virt)) with
          | (none, machine') => (false, machine')
          | (some pde, machine') =>
              (true, mapLeaf machine' root pdpt pd (tableAddress pde) virt phys flags)
        else
          (true, mapLeaf machine' root pdpt pd
            (tableAddress (readEntry machine'.memory pd (pdIndex virt))) virt phys flags) := by
  simp only [mapPagePml4, reachDirectory, nonzero, ↓reduceIte]
  rcases getOrCreateTable machine root (pml4Index virt) 0 with ⟨_ | _, machine₁⟩
  · rfl
  dsimp only
  rcases getOrCreateTable machine₁ _ (pdptIndex virt) 0 with ⟨_ | _, machine₂⟩
  · rfl
  dsimp only
  rcases getOrCreateTable machine₂ _ (pdIndex virt) 0 with ⟨_ | _, machine₃⟩
  · rfl
  · rfl

/-- A link that is created leads to an empty table and is closed to user accesses. -/
theorem getOrCreateTable_created {parent : Nat} {index : Fin 512}
    (aligned : parent % 4096 = 0) (used : ¬ machine.pmm.Available parent)
    (called : getOrCreateTable machine parent index 0 = (true, machine')) :
    machine' = machine ∨
      user (readEntry machine'.memory parent index) = false ∧
      huge (readEntry machine'.memory parent index) = false ∧
      ∀ slot, readEntry machine'.memory
        (tableAddress (readEntry machine'.memory parent index)) slot = 0#64 := by
  unfold getOrCreateTable at called
  dsimp only at called
  split at called
  · cases called
    exact .inl rfl
  split at called
  · cases called
  next succeeded =>
  cases called
  rcases machine.pmm.allocPage_cases with failed | taken
  · rw [failed] at succeeded
    exact absurd rfl succeeded
  have small : machine.pmm.allocPage.1 < 2 ^ 52 := by
    have := taken.1.lt
    omega
  have different : machine.pmm.allocPage.1 ≠ parent := by
    intro same
    exact used (same ▸ taken.1)
  rw [readEntry_writeEntry_self]
  refine .inr ⟨user_tableEntry taken.1.aligned small, huge_tableEntry taken.1.aligned small, ?_⟩
  intro slot
  rw [tableAddress_eq_frame (highClear_tableEntry taken.1.aligned small),
    frame_tableEntry taken.1.aligned small,
    readEntry_writeEntry_of_ne aligned taken.1.aligned (by simp [different])]
  exact readEntry_fill_zero

/-- The tables above a page are there. -/
structure Directory (machine : Machine) (root virt pdpt pd : Nat) : Prop where
  pdpt_reached : tableAt machine.memory root [pml4Index virt] = some pdpt
  pd_reached : tableAt machine.memory root [pml4Index virt, pdptIndex virt] = some pd
  used : present (readEntry machine.memory pd (pdIndex virt)) = true

/-- The first steps are silent.  A large leaf at the end was there before, and so was a link
that is open. -/
theorem reachDirectory_spec {result : Option (Nat × Nat)} (valid : WellFormed machine root)
    (called : reachDirectory machine root virt = (result, machine')) :
    Silent machine machine' root ∧ ∀ pdpt pd, result = some (pdpt, pd) →
      Directory machine' root virt pdpt pd ∧
        (user (readEntry machine'.memory pd (pdIndex virt)) = true ∨
          huge (readEntry machine'.memory pd (pdIndex virt)) = true → machine' = machine) := by
  unfold reachDirectory at called
  have rootReached : tableAt machine.memory root [] = some root := rfl
  obtain ⟨step₁, used₁⟩ :=
    @getOrCreateTable_silent machine root [] (pml4Index virt) root valid (by simp) rootReached
  rcases create₁ : getOrCreateTable machine root (pml4Index virt) 0 with ⟨ok₁, machine₁⟩
  rw [create₁] at step₁ used₁ called
  cases ok₁ with
  | false =>
      cases called
      exact ⟨step₁, nofun⟩
  | true =>
  have valid₁ := step₁.wellFormed
  have small₁ := valid₁.no_gigabyte [] root (pml4Index virt) (by simp) rfl (used₁ rfl)
  have created₁ := getOrCreateTable_created valid.root_aligned
    (valid.owned [] root (by simp) rfl) create₁
  have pdpt₁ : tableAt machine₁.memory root [pml4Index virt] =
      some (tableAddress (readEntry machine₁.memory root (pml4Index virt))) :=
    (@tableAt_snoc machine₁.memory root root [] rfl (pml4Index virt)).trans
      (child_eq_some_iff.mpr ⟨used₁ rfl, small₁, rfl⟩)
  dsimp only at called
  generalize tableAddress (readEntry machine₁.memory root (pml4Index virt)) = pdpt
    at called pdpt₁ created₁
  obtain ⟨step₂, used₂⟩ := @getOrCreateTable_silent machine₁ root [pml4Index virt]
    (pdptIndex virt) pdpt valid₁ (by simp) pdpt₁
  rcases create₂ : getOrCreateTable machine₁ pdpt (pdptIndex virt) 0 with ⟨ok₂, machine₂⟩
  rw [create₂] at step₂ used₂ called
  cases ok₂ with
  | false =>
      cases called
      exact ⟨step₁.trans step₂, nofun⟩
  | true =>
  have valid₂ := step₂.wellFormed
  have pdpt₂ := step₂.reached _ _ (by simp) pdpt₁
  have small₂ :=
    valid₂.no_gigabyte [pml4Index virt] pdpt (pdptIndex virt) (by simp) pdpt₂ (used₂ rfl)
  have created₂ := getOrCreateTable_created (valid₁.table_aligned (by simp) pdpt₁)
    (valid₁.owned _ pdpt (by simp) pdpt₁) create₂
  have pd₂ : tableAt machine₂.memory root [pml4Index virt, pdptIndex virt] =
      some (tableAddress (readEntry machine₂.memory pdpt (pdptIndex virt))) :=
    (tableAt_snoc pdpt₂ (pdptIndex virt)).trans
      (child_eq_some_iff.mpr ⟨used₂ rfl, small₂, rfl⟩)
  dsimp only at called
  generalize tableAddress (readEntry machine₂.memory pdpt (pdptIndex virt)) = pd
    at called pd₂ created₂
  obtain ⟨step₃, used₃⟩ := @getOrCreateTable_silent machine₂ root
    [pml4Index virt, pdptIndex virt] (pdIndex virt) pd valid₂ (by simp) pd₂
  rcases create₃ : getOrCreateTable machine₂ pd (pdIndex virt) 0 with ⟨ok₃, machine₃⟩
  rw [create₃] at step₃ used₃ called
  cases ok₃ with
  | false =>
      cases called
      exact ⟨(step₁.trans step₂).trans step₃, nofun⟩
  | true =>
  have created₃ := getOrCreateTable_created (valid₂.table_aligned (by simp) pd₂)
    (valid₂.owned _ pd (by simp) pd₂) create₃
  cases called
  refine ⟨(step₁.trans step₂).trans step₃, ?_⟩
  intro pdpt' pd' same
  cases same
  refine ⟨⟨step₃.reached _ _ (by simp) pdpt₂, step₃.reached _ _ (by simp) pd₂, used₃ rfl⟩, ?_⟩
  -- the last step created nothing, and so on upwards
  intro before
  rcases created₃ with rfl | ⟨closed, small, _⟩
  · rcases created₂ with rfl | ⟨closed, _, empty⟩
    · rcases created₁ with rfl | ⟨closed, _, empty⟩
      · rfl
      · rw [empty] at used₂
        cases used₂ rfl
    · rw [empty] at used₃
      cases used₃ rfl
  · rcases before with opened | large
    · rw [opened] at closed
      cases closed
    · rw [large] at small
      cases small

end Shared

/-! ## When the two agree -/

/-- The entry of an address in the PML4. -/
def pml4Entry (memory : ByteMemory) (root virt : Nat) : Entry :=
  readEntry memory root (pml4Index virt)

/-- The entry of an address in the PDPT below. -/
def pdptEntry (memory : ByteMemory) (root virt : Nat) : Entry :=
  readEntry memory (tableAddress (pml4Entry memory root virt)) (pdptIndex virt)

/-- The entry of an address in the page directory below. -/
def directoryEntry (memory : ByteMemory) (root virt : Nat) : Entry :=
  readEntry memory (tableAddress (pdptEntry memory root virt)) (pdIndex virt)

/-- The entries above the page table of an address are all present. -/
def Linked (memory : ByteMemory) (root virt : Nat) : Prop :=
  present (pml4Entry memory root virt) = true ∧ present (pdptEntry memory root virt) = true ∧
    present (directoryEntry memory root virt) = true

/-- The entries above the page table of an address have the user bit. -/
def Opened (memory : ByteMemory) (root virt : Nat) : Prop :=
  user (pml4Entry memory root virt) = true ∧ user (pdptEntry memory root virt) = true ∧
    user (directoryEntry memory root virt) = true

/-- A 2 MiB leaf covers an address. -/
def Covered (memory : ByteMemory) (root virt : Nat) : Prop :=
  Linked memory root virt ∧ huge (directoryEntry memory root virt) = true

/-- What `vmm_map_page` takes for granted: no large leaf covers the address, and user pages go
below links that are there and open. -/
def Ready (machine : Machine) (virt : Nat) (flags : Entry) : Prop :=
  ¬ Covered machine.memory machine.cr3 virt ∧
    (user flags = true → Linked machine.memory machine.cr3 virt ∧
      Opened machine.memory machine.cr3 virt)

/-- The two mappers do the same: they both succeed or both fail, the processor then translates
every address alike, and no page is written that is neither a table of the tree nor a page of
the allocator. -/
def Agrees (machine : Machine) (virt phys : Nat) (flags : Entry) : Prop :=
  (mapPage machine virt phys flags).1 =
      (mapPagePml4 machine machine.cr3 virt phys flags).1 ∧
    (∀ address, hardwareWalk (mapPage machine virt phys flags).2.memory machine.cr3 address =
      hardwareWalk (mapPagePml4 machine machine.cr3 virt phys flags).2.memory machine.cr3
        address) ∧
    ∀ page, page % 4096 = 0 → Foreign machine machine.cr3 page →
      ByteMemory.AgreeOn (mapPage machine virt phys flags).2.memory machine.memory page
        (page + 4096)

section Agreement

variable {machine machine' : Machine} {root virt phys pdpt pd : Nat} {flags : Entry}

/-- The tables that were found are those that the entries name. -/
theorem Directory.linked (directory : Directory machine root virt pdpt pd) :
    pdpt = tableAddress (pml4Entry machine.memory root virt) ∧
      pd = tableAddress (pdptEntry machine.memory root virt) ∧
      Linked machine.memory root virt := by
  have first := directory.pdpt_reached
  have second := directory.pd_reached
  rw [show [pml4Index virt, pdptIndex virt] = [pml4Index virt] ++ [pdptIndex virt] from rfl,
    tableAt_snoc first] at second
  rw [show [pml4Index virt] = [] ++ [pml4Index virt] from rfl,
    @tableAt_snoc _ _ root [] rfl] at first
  obtain ⟨used₁, _, rfl⟩ := child_eq_some_iff.mp first
  obtain ⟨used₂, _, rfl⟩ := child_eq_some_iff.mp second
  exact ⟨rfl, rfl, used₁, used₂, directory.used⟩

/-- Entries that are present name tables of the tree. -/
theorem Linked.directory (valid : WellFormed machine root)
    (linked : Linked machine.memory root virt) :
    Directory machine root virt (tableAddress (pml4Entry machine.memory root virt))
      (tableAddress (pdptEntry machine.memory root virt)) := by
  obtain ⟨used₁, used₂, used₃⟩ := linked
  have small₁ := valid.no_gigabyte [] root (pml4Index virt) (by simp) rfl used₁
  have first : tableAt machine.memory root [pml4Index virt] =
      some (tableAddress (pml4Entry machine.memory root virt)) :=
    (@tableAt_snoc machine.memory root root [] rfl (pml4Index virt)).trans
      (child_eq_some_iff.mpr ⟨used₁, small₁, rfl⟩)
  have small₂ := valid.no_gigabyte [pml4Index virt] _ (pdptIndex virt) (by simp) first used₂
  exact ⟨first, (tableAt_snoc first (pdptIndex virt)).trans
    (child_eq_some_iff.mpr ⟨used₂, small₂, rfl⟩), used₃⟩

theorem Directory.page_table (directory : Directory machine root virt pdpt pd)
    (small : huge (readEntry machine.memory pd (pdIndex virt)) = false) :
    tableAt machine.memory root (tablePath virt) =
      some (tableAddress (readEntry machine.memory pd (pdIndex virt))) :=
  (tableAt_snoc directory.pd_reached (pdIndex virt)).trans
    (child_eq_some_iff.mpr ⟨directory.used, small, rfl⟩)

theorem Opened.pathOpen (directory : Directory machine root virt pdpt pd)
    (opened : Opened machine.memory root virt) :
    PathOpen machine.memory root (tablePath virt) := by
  obtain ⟨first, second, -⟩ := directory.linked
  subst first
  subst second
  intro above slot below upperTable split here
  match above, split with
  | [], split =>
      cases split
      cases here
      exact opened.1
  | [_], split =>
      cases split
      rw [directory.pdpt_reached] at here
      cases here
      exact opened.2.1
  | [_, _], split =>
      cases split
      rw [directory.pd_reached] at here
      cases here
      exact opened.2.2
  | _ :: _ :: _ :: rest, split =>
      have lengths := congrArg List.length split
      simp [tablePath] at lengths

/-- Nothing is created above a page whose tables are there. -/
theorem reachDirectory_of_linked (linked : Linked machine.memory root virt) :
    reachDirectory machine root virt =
      (some (tableAddress (pml4Entry machine.memory root virt),
        tableAddress (pdptEntry machine.memory root virt)), machine) := by
  obtain ⟨used₁, used₂, used₃⟩ := linked
  have create₁ : getOrCreateTable machine root (pml4Index virt) 0 = (true, machine) :=
    if_pos used₁
  have create₂ : getOrCreateTable machine
      (tableAddress (readEntry machine.memory root (pml4Index virt))) (pdptIndex virt) 0 =
        (true, machine) :=
    if_pos used₂
  have create₃ : getOrCreateTable machine (tableAddress (pdptEntry machine.memory root virt))
      (pdIndex virt) 0 = (true, machine) :=
    if_pos used₃
  simp only [reachDirectory, create₁, create₂]
  change (match getOrCreateTable machine (tableAddress (pdptEntry machine.memory root virt))
    (pdIndex virt) 0 with
    | (false, machine) => (none, machine)
    | (true, machine) => (some (_, _), machine)) = _
  rw [create₃]
  rfl

/-- With what it takes for granted, `vmm_map_page` fails silently or enters the page, and it
fails when `vmm_map_page_pml4` does. -/
theorem mapPage_spec (valid : WellFormed machine machine.cr3) (nonzero : machine.cr3 ≠ 0)
    (ready : Ready machine virt flags) :
    (mapPage machine virt phys flags).1 =
        (mapPagePml4 machine machine.cr3 virt phys flags).1 ∧
      ((mapPage machine virt phys flags).1 = false ∧
          Silent machine (mapPage machine virt phys flags).2 machine.cr3 ∨
        (mapPage machine virt phys flags).1 = true ∧
          Replaces machine (mapPage machine virt phys flags).2 machine.cr3 virt
            (pageView (leafEntry phys flags))) := by
  rw [mapPage_eq, mapPagePml4_eq nonzero]
  rcases reach : reachDirectory machine machine.cr3 virt with ⟨result, machine'⟩
  obtain ⟨silent, found⟩ := reachDirectory_spec valid reach
  cases result with
  | none => exact ⟨rfl, .inl ⟨rfl, silent⟩⟩
  | some tables =>
  obtain ⟨pdpt, pd⟩ := tables
  obtain ⟨directory, before⟩ := found pdpt pd rfl
  have small : huge (readEntry machine'.memory pd (pdIndex virt)) = false := by
    by_contra large
    rw [Bool.not_eq_false] at large
    have same := before (.inr large)
    subst same
    obtain ⟨-, second, linked⟩ := directory.linked
    subst second
    exact ready.1 ⟨linked, large⟩
  refine ⟨?_, .inr ⟨rfl, silent.replaces
    (setLeaf_replaces silent.wellFormed (directory.page_table small) ?_)⟩⟩
  · dsimp only
    rw [small]
    rfl
  · intro _ wanted
    rw [user_leafEntry] at wanted
    obtain ⟨linked, opened⟩ := ready.2 wanted
    rw [reachDirectory_of_linked linked] at reach
    cases reach
    exact opened.pathOpen directory

/-- The processor cannot tell two trees with the same leaves apart. -/
theorem hardwareWalk_eq_of_leafView {left right : Machine} (validLeft : WellFormed left root)
    (validRight : WellFormed right root)
    (same : ∀ first second third last, leafView left.memory root first second third last =
      leafView right.memory root first second third last) (address : Nat) :
    hardwareWalk left.memory root address = hardwareWalk right.memory root address := by
  by_cases canonical : Canonical address
  · rw [validLeft.hardwareWalk_eq canonical, validRight.hardwareWalk_eq canonical]
    exact same _ _ _ _
  · simp [hardwareWalk, canonical]

/-- What `vmm_map_page` takes for granted is enough. -/
theorem Ready.agrees (valid : WellFormed machine machine.cr3) (nonzero : machine.cr3 ≠ 0)
    (ready : Ready machine virt flags) : Agrees machine virt phys flags := by
  obtain ⟨same, outcome⟩ := @mapPage_spec machine virt phys flags valid nonzero ready
  have other := mapPagePml4_spec virt phys flags valid
  refine ⟨same, ?_, ?_⟩
  · rcases outcome with ⟨failed, silent⟩ | ⟨succeeded, replaced⟩
    · rcases other with ⟨-, silent'⟩ | ⟨succeeded', -⟩
      · apply hardwareWalk_eq_of_leafView silent.wellFormed silent'.wellFormed
        intro first second third last
        rw [silent.view_eq, silent'.view_eq]
      · rw [failed, succeeded'] at same
        cases same
    · rcases other with ⟨failed', -⟩ | ⟨-, replaced'⟩
      · rw [succeeded, failed'] at same
        cases same
      · apply hardwareWalk_eq_of_leafView replaced.wellFormed replaced'.wellFormed
        intro first second third last
        rw [replaced.view_eq, replaced'.view_eq]
  · intro page aligned outside
    rcases outcome with ⟨-, silent⟩ | ⟨-, replaced⟩
    · exact (silent.foreign page aligned outside).2
    · exact (replaced.foreign page aligned outside).2

/-- The processor lets user accesses through when all entries do. -/
theorem user_of_hardwareWalk {memory : ByteMemory} {translation : Translation}
    (first : frame (readEntry memory root (pml4Index virt)) = pdpt)
    (second : frame (readEntry memory pdpt (pdptIndex virt)) = pd)
    (small : huge (readEntry memory pdpt (pdptIndex virt)) = false)
    (found : hardwareWalk memory root virt = some translation)
    (access : translation.user = true) :
    user (readEntry memory root (pml4Index virt)) = true ∧
      user (readEntry memory pdpt (pdptIndex virt)) = true ∧
      user (readEntry memory pd (pdIndex virt)) = true := by
  simp only [hardwareWalk, walkPdpt, walkPageDirectory, walkPageTable, first, second, small,
    Bool.false_eq_true, ↓reduceIte] at found
  split at found
  · cases found
  split at found
  · cases found
  split at found
  · cases found
  split at found
  · cases found
    simp only [combine, List.cons_append, List.nil_append, List.all_cons, List.all_nil,
      Bool.and_true, Bool.and_eq_true] at access
    exact ⟨access.1, access.2.1, access.2.2⟩
  split at found
  · cases found
  · cases found
    simp only [combine, List.cons_append, List.nil_append, List.all_cons, List.all_nil,
      Bool.and_true, Bool.and_eq_true] at access
    exact ⟨access.1, access.2.1, access.2.2.1⟩

theorem mapPage_opened {translation : Translation} (valid : WellFormed machine machine.cr3)
    (uncovered : ¬ Covered machine.memory machine.cr3 virt)
    (called : mapPage machine virt phys flags = (true, machine'))
    (found : hardwareWalk machine'.memory machine.cr3 virt = some translation)
    (access : translation.user = true) :
    Linked machine.memory machine.cr3 virt ∧ Opened machine.memory machine.cr3 virt := by
  rw [mapPage_eq] at called
  rcases reach : reachDirectory machine machine.cr3 virt with ⟨result, machine₁⟩
  rw [reach] at called
  obtain ⟨silent, reached⟩ := reachDirectory_spec valid reach
  cases result with
  | none => cases called
  | some tables =>
  obtain ⟨pdpt, pd⟩ := tables
  cases called
  obtain ⟨directory, before⟩ := reached pdpt pd rfl
  have valid₁ := silent.wellFormed
  have small : huge (readEntry machine₁.memory pd (pdIndex virt)) = false := by
    by_contra large
    rw [Bool.not_eq_false] at large
    have same := before (.inr large)
    subst same
    obtain ⟨-, second, linked⟩ := directory.linked
    subst second
    exact uncovered ⟨linked, large⟩
  have ptReached := directory.page_table small
  obtain ⟨first, second, linked⟩ := directory.linked
  have clear₁ := (valid₁.upper [] _ _ (by simp) rfl linked.1).2
  have clear₂ := (valid₁.upper [pml4Index virt] _ (pdptIndex virt) (by simp)
    directory.pdpt_reached (first ▸ linked.2.1)).2
  -- the store into the page table keeps the entries above it
  have kept : ∀ query table (slot : Fin 512), query.length ≤ 2 →
      tableAt machine₁.memory machine.cr3 query = some table →
      readEntry (machine₁.setEntry (tableAddress (readEntry machine₁.memory pd (pdIndex virt)))
        (ptIndex virt) (leafEntry phys flags)).memory table slot =
          readEntry machine₁.memory table slot :=
    fun _ _ slot short here => readEntry_setLeaf_of_upper valid₁ rfl ptReached short here
  have kept₁ := kept [] _ (pml4Index virt) (by simp) rfl
  have kept₂ := kept _ _ (pdptIndex virt) (by simp) directory.pdpt_reached
  have kept₃ := kept _ _ (pdIndex virt) (by simp) directory.pd_reached
  have opened : Opened machine₁.memory machine.cr3 virt := by
    have users := @user_of_hardwareWalk machine.cr3 virt pdpt pd _ _
      (by rw [kept₁, first, ← tableAddress_eq_frame clear₁]; rfl)
      (by rw [kept₂, second, ← tableAddress_eq_frame clear₂, first]; rfl)
      (by
        rw [kept₂]
        exact valid₁.no_gigabyte [pml4Index virt] _ _ (by simp) directory.pdpt_reached
          (first ▸ linked.2.1)) found access
    rw [kept₁, kept₂, kept₃] at users
    rw [first, second] at users
    exact users
  have same := before (.inl (second ▸ opened.2.2))
  rw [same] at linked opened
  exact ⟨linked, opened⟩

/-- Below a large leaf, `vmm_map_page` stores into the memory that the leaf maps.  Where that
is no table, the processor does not notice. -/
theorem mapPage_covered (valid : WellFormed machine machine.cr3)
    (covered : Covered machine.memory machine.cr3 virt)
    (apart : ∀ path, path.length ≤ 3 → tableAt machine.memory machine.cr3 path ≠
      some (tableAddress (directoryEntry machine.memory machine.cr3 virt))) (address : Nat) :
    hardwareWalk (mapPage machine virt phys flags).2.memory machine.cr3 address =
      hardwareWalk machine.memory machine.cr3 address := by
  have aligned := tableAddress_aligned (directoryEntry machine.memory machine.cr3 virt)
  rw [mapPage_eq, reachDirectory_of_linked covered.1]
  dsimp only
  have kept : ∀ path table, path.length ≤ 3 →
      tableAt machine.memory machine.cr3 path = some table →
      ByteMemory.AgreeOn (machine.setEntry
        (tableAddress (directoryEntry machine.memory machine.cr3 virt)) (ptIndex virt)
        (leafEntry phys flags)).memory machine.memory table (table + 4096) := by
    intro path table short reached
    have different : table ≠ tableAddress (directoryEntry machine.memory machine.cr3 virt) := by
      intro same
      exact apart path short (same ▸ reached)
    have tableAligned := valid.table_aligned short reached
    exact agreeOn_writeEntry (by omega)
  have still := valid.elsewhere kept (valid.owned · · · ·)
  exact hardwareWalk_eq_of_leafView still valid (leafView_elsewhere kept) address

/-- What `vmm_map_page` takes for granted is needed whenever the call changes the translation
of its address, unless the store below a large leaf hits a table. -/
theorem Agrees.ready (valid : WellFormed machine machine.cr3)
    (canonical : Canonical virt) (small : phys < 2 ^ 52)
    (succeeded : (mapPagePml4 machine machine.cr3 virt phys flags).1 = true)
    (new : hardwareWalk machine.memory machine.cr3 virt ≠ some (requested phys flags))
    (apart : Covered machine.memory machine.cr3 virt → ∀ path, path.length ≤ 3 →
      tableAt machine.memory machine.cr3 path ≠
        some (tableAddress (directoryEntry machine.memory machine.cr3 virt)))
    (agrees : Agrees machine virt phys flags) : Ready machine virt flags := by
  have entered : hardwareWalk (mapPage machine virt phys flags).2.memory machine.cr3 virt =
      some (requested phys flags) := by
    rw [agrees.2.1 virt]
    rcases mapPagePml4_spec virt phys flags valid with ⟨failed, -⟩ | ⟨-, replaced⟩
    · rw [failed] at succeeded
      cases succeeded
    · rw [replaced.wellFormed.hardwareWalk_eq canonical, view, replaced.view_eq,
        if_pos ⟨rfl, rfl⟩, pageView_leafEntry small]
  have uncovered : ¬ Covered machine.memory machine.cr3 virt := by
    intro covered
    rw [mapPage_covered valid covered (apart covered)] at entered
    exact new entered
  refine ⟨uncovered, ?_⟩
  intro wanted
  rcases called : mapPage machine virt phys flags with ⟨ok, machine'⟩
  have returned : ok = true := by
    have same := agrees.1
    rw [called, succeeded] at same
    exact same
  subst returned
  rw [called] at entered
  exact mapPage_opened valid uncovered called entered wanted

end Agreement

/-! ## Demand paging -/

/-- The processor lets a user access through. -/
def UserPermits (translation : Option Translation) (write : Bool) : Prop :=
  ∃ result, translation = some result ∧ result.user = true ∧
    (write = true → result.writable = true)

section Faults

variable {machine machine' : Machine} {virt : Nat}

/-- No large leaf covers an address that is not translated. -/
theorem not_covered_of_absent (valid : WellFormed machine machine.cr3)
    (canonical : Canonical virt)
    (absent : hardwareWalk machine.memory machine.cr3 virt = none) :
    ¬ Covered machine.memory machine.cr3 virt := by
  rintro ⟨linked, large⟩
  have directory := linked.directory valid
  rw [valid.hardwareWalk_eq canonical, view_of_directory directory.pd_reached
    (child_eq_none_of_huge large)] at absent
  have used : present (readEntry machine.memory
      (tableAddress (pdptEntry machine.memory machine.cr3 virt)) (pdIndex virt)) = true :=
    linked.2.2
  rw [hugeView, if_pos used] at absent
  cases absent

/-- A user access that is tried again after a page was mapped for it is let through exactly
when the tables above the page were there and open. -/
theorem handlePageFault_permits {errorCode : BitVec 64} {cr2 : Nat} (write : Bool)
    (valid : WellFormed machine machine.cr3) (nonzero : machine.cr3 ≠ 0)
    (canonical : Canonical cr2)
    (absent : hardwareWalk machine.memory machine.cr3 cr2 = none)
    (fromUser : errorCode.getLsbD 2 = true)
    (handled : handlePageFault machine errorCode cr2 = (true, machine')) :
    UserPermits (hardwareWalk machine'.memory machine.cr3 cr2) write ↔
      Linked machine.memory machine.cr3 (cr2 / pageSize * pageSize) ∧
        Opened machine.memory machine.cr3 (cr2 / pageSize * pageSize) := by
  unfold handlePageFault at handled
  split at handled
  · cases handled
  dsimp only at handled
  split at handled
  · cases handled
  next succeeded =>
  rcases machine.pmm.allocPage_cases with failed | taken
  · rw [failed] at succeeded
    exact absurd rfl succeeded
  generalize machine.pmm.allocPage.1 = phys at handled taken
  generalize machine.pmm.allocPage.2 = pmm at handled taken
  have small : phys < 2 ^ 52 := by
    have := taken.1.lt
    omega
  rw [← hardwareWalk_page] at absent ⊢
  have pageCanonical : Canonical (cr2 / pageSize * pageSize) := by
    simp only [Canonical, pageSize] at canonical ⊢
    omega
  generalize cr2 / pageSize * pageSize = page at handled absent pageCanonical ⊢
  -- taking the page from the allocator does not change the tree
  have valid₁ : WellFormed { machine with pmm } machine.cr3 :=
    valid.elsewhere (fun _ _ _ _ => ByteMemory.AgreeOn.refl _ _ _)
      fun path table short reached free =>
        valid.owned path table short reached ((taken.2 table).mp free).1
  have uncovered := not_covered_of_absent valid pageCanonical absent
  constructor
  · rintro ⟨translation, found, access, -⟩
    exact @mapPage_opened { machine with pmm } _ _ _ _ _ valid₁ uncovered handled found access
  · intro ready
    have spec := @mapPage_spec { machine with pmm } page phys (0x02#64 ||| 0x04#64) valid₁ nonzero
      ⟨uncovered, fun _ => ready⟩
    rw [handled] at spec
    rcases spec.2 with ⟨failed, -⟩ | ⟨-, replaced⟩
    · cases failed
    · refine ⟨requested phys (0x02#64 ||| 0x04#64), ?_, rfl, fun _ => rfl⟩
      rw [replaced.wellFormed.hardwareWalk_eq pageCanonical, view, replaced.view_eq,
        if_pos ⟨rfl, rfl⟩, pageView_leafEntry small]

end Faults

/-- When the two mappers agree.  No large leaf above the page and open links above a user page
are enough, and they are needed for every page that is not mapped so already (unless the store
below the leaf hits a table).  A user access to a page mapped on demand is let through under
the same condition. -/
theorem mappers_agree {machine : Machine} (valid : WellFormed machine machine.cr3)
    (nonzero : machine.cr3 ≠ 0) :
    (∀ virt phys flags, Ready machine virt flags → Agrees machine virt phys flags) ∧
    (∀ virt phys flags, Canonical virt → phys < 2 ^ 52 →
      (mapPagePml4 machine machine.cr3 virt phys flags).1 = true →
      hardwareWalk machine.memory machine.cr3 virt ≠ some (requested phys flags) →
      (Covered machine.memory machine.cr3 virt → ∀ path, path.length ≤ 3 →
        tableAt machine.memory machine.cr3 path ≠
          some (tableAddress (directoryEntry machine.memory machine.cr3 virt))) →
      (Agrees machine virt phys flags ↔ Ready machine virt flags)) ∧
    ∀ errorCode cr2 write machine', Canonical cr2 →
      hardwareWalk machine.memory machine.cr3 cr2 = none → errorCode.getLsbD 2 = true →
      handlePageFault machine errorCode cr2 = (true, machine') →
      (UserPermits (hardwareWalk machine'.memory machine.cr3 cr2) write ↔
        Ready machine (cr2 / pageSize * pageSize) (0x02#64 ||| 0x04#64)) := by
  refine ⟨fun _ _ _ ready => ready.agrees valid nonzero, ?_, ?_⟩
  · intro virt phys flags canonical small succeeded new apart
    exact ⟨fun agrees => agrees.ready valid canonical small succeeded new apart,
      fun ready => ready.agrees valid nonzero⟩
  intro errorCode cr2 write machine' canonical absent fromUser handled
  rw [handlePageFault_permits write valid nonzero canonical absent fromUser handled]
  have uncovered : ¬ Covered machine.memory machine.cr3 (cr2 / pageSize * pageSize) := by
    apply not_covered_of_absent valid
    · simp only [Canonical, pageSize] at canonical ⊢
      omega
    · rw [hardwareWalk_page]
      exact absent
  constructor
  · intro ready
    exact ⟨uncovered, fun _ => ready⟩
  · intro ready
    exact ready.2 rfl

section Boot

variable (memory : ByteMemory)

theorem boot_entries {virt : Nat} (low : pml4Index virt = 0) :
    pml4Entry (bootMachine memory).memory 0x101000 virt = tableEntry 0x102000 0 ∧
      pdptEntry (bootMachine memory).memory 0x101000 virt =
        readEntry (setupPageTables memory 0x101000) 0x102000 (pdptIndex virt) := by
  have first : pml4Entry (bootMachine memory).memory 0x101000 virt = tableEntry 0x102000 0 := by
    rw [pml4Entry, low]
    exact (readEntry_boot_pml4 memory (by decide) (by decide)).trans (ofNat_or_three (by decide))
  refine ⟨first, ?_⟩
  rw [pdptEntry, first, tableAddress_eq_frame (highClear_tableEntry (by decide) (by decide)),
    frame_tableEntry (by decide) (by decide)]
  rfl

/-- Large leaves cover the first gigabyte. -/
theorem boot_covered {virt : Nat} (low : pml4Index virt = 0) (first : pdptIndex virt = 0) :
    directoryEntry (bootMachine memory).memory 0x101000 virt =
        BitVec.ofNat 64 ((pdIndex virt : Nat) * 2 ^ 21 + 0x83) ∧
      Covered (bootMachine memory).memory 0x101000 virt := by
  obtain ⟨top, middle⟩ := boot_entries memory low
  have link : pdptEntry (bootMachine memory).memory 0x101000 virt = tableEntry 0x103000 0 := by
    rw [middle, first]
    exact (readEntry_boot_pdpt memory (by decide) (by decide)).trans (ofNat_or_three (by decide))
  have leaf : directoryEntry (bootMachine memory).memory 0x101000 virt =
      BitVec.ofNat 64 ((pdIndex virt : Nat) * 2 ^ 21 + 0x83) := by
    rw [directoryEntry, link,
      tableAddress_eq_frame (highClear_tableEntry (by decide) (by decide)),
      frame_tableEntry (by decide) (by decide)]
    exact readEntry_boot_pd memory (pdIndex virt)
  refine ⟨leaf, ⟨?_, ?_, ?_⟩, ?_⟩
  · rw [top]
    exact present_tableEntry (by decide) (by decide)
  · rw [link]
    exact present_tableEntry (by decide) (by decide)
  · rw [leaf, present, getLsbD_bootLeaf _ (by decide)]
    rfl
  · rw [leaf, huge, getLsbD_bootLeaf _ (by decide)]
    rfl

end Boot

/-- After boot, the kernel can map pages outside the first gigabyte. -/
theorem mappers_agree_after_boot :
    Agrees (bootMachine fun _ => 0) 0x40000000 0x900000 3 := by
  apply (mappers_agree (kernelSpace_bootMachine fun _ => 0).toWellFormed (by decide)).1
  refine ⟨?_, nofun⟩
  rintro ⟨⟨-, used, -⟩, -⟩
  have empty : pdptEntry (bootMachine fun _ => 0).memory 0x101000 0x40000000 = 0#64 :=
    (boot_entries (fun _ => 0) rfl).2.trans
      (readEntry_boot_empty (fun _ => 0) (by decide) (.inr rfl) (by decide))
  rw [show (bootMachine fun _ => 0).cr3 = 0x101000 from rfl, empty] at used
  cases used

/-- After boot, a user page in the first gigabyte is not mapped at all: its entry is stored in
the first page of memory. -/
theorem mapPage_below_leaf :
    WellFormed (bootMachine fun _ => 0) (bootMachine fun _ => 0).cr3 ∧
      ¬ Agrees (bootMachine fun _ => 0) 0x1000 0x900000 7 := by
  have kernel : KernelSpace (bootMachine fun _ => 0) (bootMachine fun _ => 0).cr3 :=
    kernelSpace_bootMachine fun _ => 0
  obtain ⟨leaf, covered⟩ := @boot_covered (fun _ => 0) 0x1000 rfl rfl
  refine ⟨kernel.toWellFormed, fun agrees => ?_⟩
  obtain ⟨machine', mapped, -⟩ := @mapPagePml4_succeeds (bootMachine fun _ => 0) 12
    (bootMachine fun _ => 0).cr3 (by decide) bootPmm_plenty 0x1000 0x900000 7
  have ready := agrees.ready kernel.toWellFormed (.inl (by decide)) (by decide)
    (by rw [mapped]) ?_ ?_
  · exact ready.1 covered
  · intro open'
    rw [kernel.toWellFormed.hardwareWalk_eq (.inl (by decide))] at open'
    cases kernel.closed _ _ _ _ _ open'
  · intro _ path short reached
    have zero : tableAddress (directoryEntry (bootMachine fun _ => 0).memory
        (bootMachine fun _ => 0).cr3 0x1000) = 0 := by
      rw [show (bootMachine fun _ => 0).cr3 = 0x101000 from rfl, leaf]
      decide
    rw [zero] at reached
    rcases boot_cases (by decide) (by decide) short reached with
      ⟨-, same⟩ | ⟨-, same⟩ | ⟨-, same⟩ <;> cases same

end Charis.Memory
