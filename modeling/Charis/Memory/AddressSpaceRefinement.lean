import Charis.Lib.Transition
import Charis.Memory.BootTables

/-!
# Address spaces refine page maps

What an address space is for: a map from virtual pages to physical pages with
permissions, in which mapping and unmapping change one page each.  The page-table
trees that the kernel creates from its own and edits by `vmm_map_page_pml4` and
`vmm_unmap_page_pml4` refine this map, read through the processor's walk.
-/

namespace Charis.Memory

open Charis.Lib
open Charis.Lib.RadixTree
open Entry

/-- The translation of every virtual page, by page number. -/
abbrev PageMap := Nat → Option Translation

/-- Calls of the memory manager with what they returned, and everything else that
the kernel does meanwhile. -/
inductive VmmEvent where
  | map (virt phys : Nat) (flags : Entry) (ok : Bool)
  | unmap (virt frame : Nat)
  | other

/-- The transitions of a page map. -/
inductive PageMap.Step : PageMap → VmmEvent → PageMap → Prop
  /-- A page is given a new translation. -/
  | mapped (pages : PageMap) (virt phys : Nat) (flags : Entry) :
      Step pages (.map virt phys flags true)
        (Function.update pages (virt / pageSize) (some (requested phys flags)))
  /-- There was no memory for a table. -/
  | refused (pages : PageMap) (virt phys : Nat) (flags : Entry) :
      Step pages (.map virt phys flags false) pages
  /-- A page is removed and its frame returned. -/
  | unmapped (pages : PageMap) (virt : Nat) (translation : Translation) :
      pages (virt / pageSize) = some translation →
      Step pages (.unmap virt translation.frame)
        (Function.update pages (virt / pageSize) none)
  /-- There is no page to remove, or only one that is closed to user accesses. -/
  | absent (pages : PageMap) (virt : Nat) :
      (∀ translation, pages (virt / pageSize) = some translation →
        translation.user = false) →
      Step pages (.unmap virt 0) pages
  | other (pages : PageMap) : Step pages .other pages

/-- A page that user code can access. -/
def PageMap.UserAccessible (pages : PageMap) (page : Nat) : Prop :=
  ∃ translation, pages page = some translation ∧ translation.user = true

/-- Whether a page is a user page after an event. -/
def noteUser (page : Nat) (wasUser : Bool) : VmmEvent → Bool
  | .map virt _ flags true => if virt / pageSize = page then user flags else wasUser
  | .map _ _ _ false => wasUser
  | .unmap virt _ => if virt / pageSize = page then false else wasUser
  | .other => wasUser

/-- The pages mapped with the user bit and not since unmapped or remapped. -/
def UserMapped (events : List VmmEvent) (page : Nat) : Prop :=
  events.foldl (noteUser page) false = true

/-- In a page map that starts without user pages, the user pages are those mapped
as such. -/
theorem userAccessible_iff {start pages : PageMap} {events : List VmmEvent}
    (closed : ∀ page, ¬ start.UserAccessible page)
    (run : Run PageMap.Step start events pages) (page : Nat) :
    pages.UserAccessible page ↔ UserMapped events page := by
  induction run with
  | start => simp [UserMapped, closed page]
  | next run last ih =>
  simp only [UserMapped, List.foldl_append, List.foldl_cons, List.foldl_nil] at ih ⊢
  cases last with
  | mapped virt phys flags =>
      by_cases here : virt / pageSize = page
      · subst here
        simp [PageMap.UserAccessible, noteUser, requested]
      · simp only [noteUser, here, ↓reduceIte, ← ih, PageMap.UserAccessible]
        rw [Function.update_of_ne (Ne.symm here)]
  | refused virt phys flags => exact ih
  | unmapped virt translation found =>
      by_cases here : virt / pageSize = page
      · subst here
        simp [PageMap.UserAccessible, noteUser]
      · simp only [noteUser, here, ↓reduceIte, ← ih, PageMap.UserAccessible]
        rw [Function.update_of_ne (Ne.symm here)]
  | absent virt supervisor =>
      by_cases here : virt / pageSize = page
      · subst here
        simp only [noteUser, ↓reduceIte, Bool.false_eq_true, iff_false]
        rintro ⟨translation, found, access⟩
        rw [supervisor translation found] at access
        cases access
      · simpa only [noteUser, here, ↓reduceIte] using ih
  | other => exact ih

/-- The page map that the processor reads from an address space. -/
def pageMap (machine : Machine) (root : Nat) : PageMap :=
  fun page => hardwareWalk machine.memory root (page * pageSize)

section Positions

variable {virt page : Nat}

/-- All addresses of a page are translated alike. -/
theorem hardwareWalk_page (memory : ByteMemory) (root virt : Nat) :
    hardwareWalk memory root (virt / pageSize * pageSize) = hardwareWalk memory root virt := by
  have first : pml4Index (virt / pageSize * pageSize) = pml4Index virt := by
    simp only [pml4Index, pageSize]
    congr 1
    omega
  have second : pdptIndex (virt / pageSize * pageSize) = pdptIndex virt := by
    simp only [pdptIndex, pageSize]
    congr 1
    omega
  have third : pdIndex (virt / pageSize * pageSize) = pdIndex virt := by
    simp only [pdIndex, pageSize]
    congr 1
    omega
  have last : ptIndex (virt / pageSize * pageSize) = ptIndex virt := by
    simp only [ptIndex, pageSize]
    congr 1
    omega
  have canonical : Canonical (virt / pageSize * pageSize) ↔ Canonical virt := by
    simp only [Canonical, pageSize]
    omega
  simp only [hardwareWalk, walkPdpt, walkPageDirectory, walkPageTable, first, second,
    third, last, canonical]

/-- Canonical pages have different positions in the tree. -/
theorem same_position_iff (low : virt < 2 ^ 47) (canonical : Canonical (page * pageSize)) :
    (tablePath virt = [pml4Index (page * pageSize), pdptIndex (page * pageSize),
        pdIndex (page * pageSize)] ∧ ptIndex virt = ptIndex (page * pageSize)) ↔
      page = virt / pageSize := by
  simp only [tablePath, List.cons.injEq, and_true, pml4Index, pdptIndex, pdIndex, ptIndex,
    Fin.ext_iff, Fin.val_ofNat, pageSize, Canonical] at *
  omega

end Positions

/-- The tables of a tree are neither written nor released. -/
def Untouched (machine machine' : Machine) (root : Nat) : Prop :=
  ∀ path table, path.length ≤ 3 → tableAt machine.memory root path = some table →
    ByteMemory.AgreeOn machine'.memory machine.memory table (table + 4096) ∧
      ¬ machine'.pmm.Available table

/-- One step of the life of an address space. -/
inductive VmmStep (root : Nat) : Machine → VmmEvent → Machine → Prop
  | map {machine machine' : Machine} {virt phys : Nat} {flags : Entry} {ok : Bool} :
      mapPagePml4 machine root virt phys flags = (ok, machine') →
      VmmStep root machine (.map virt phys flags ok) machine'
  | unmap {machine machine' : Machine} {virt frame : Nat} :
      unmapPagePml4 machine root virt = (frame, machine') →
      VmmStep root machine (.unmap virt frame) machine'
  | other {machine machine' : Machine} :
      Untouched machine machine' root → VmmStep root machine .other machine'

section Steps

variable {machine machine' : Machine} {root : Nat}

theorem VmmStep.wellFormed {event : VmmEvent} (nonzero : root ≠ 0)
    (valid : WellFormed machine root) (step : VmmStep root machine event machine') :
    WellFormed machine' root := by
  cases step with
  | @map _ virt phys flags ok called =>
      rcases mapPagePml4_spec virt phys flags valid with ⟨-, silent⟩ | ⟨-, replaced⟩
      · rw [called] at silent
        exact silent.wellFormed
      · rw [called] at replaced
        exact replaced.wellFormed
  | @unmap _ virt frame called =>
      rcases unmapPagePml4_spec virt valid nonzero with
        ⟨same, -⟩ | ⟨translation, -, -, replaced⟩
      · rw [called] at same
        cases same
        exact valid
      · rw [called] at replaced
        exact replaced.wellFormed
  | other untouched =>
      exact valid.elsewhere
        (fun path table short reached => (untouched path table short reached).1)
        (fun path table short reached => (untouched path table short reached).2)

theorem pageMap_congr (valid : WellFormed machine root) (valid' : WellFormed machine' root)
    (same : ∀ first second third last,
      leafView machine'.memory root first second third last =
        leafView machine.memory root first second third last) :
    pageMap machine' root = pageMap machine root := by
  funext page
  by_cases canonical : Canonical (page * pageSize)
  · simp only [pageMap]
    rw [valid'.hardwareWalk_eq canonical, valid.hardwareWalk_eq canonical]
    exact same _ _ _ _
  · simp [pageMap, hardwareWalk, canonical]

theorem pageMap_replaces {virt : Nat} {result : Option Translation}
    (valid : WellFormed machine root)
    (replaced : Replaces machine machine' root virt result) (low : virt < 2 ^ 47) :
    pageMap machine' root =
      Function.update (pageMap machine root) (virt / pageSize) result := by
  funext page
  by_cases canonical : Canonical (page * pageSize)
  · simp only [pageMap, Function.update_apply]
    rw [replaced.wellFormed.hardwareWalk_eq canonical, valid.hardwareWalk_eq canonical]
    simp only [view, replaced.view_eq, same_position_iff low canonical]
  · have different : page ≠ virt / pageSize := by
      rintro rfl
      apply canonical
      simp only [Canonical, pageSize]
      omega
    simp [pageMap, hardwareWalk, canonical, Function.update_of_ne different]

theorem view_eq_pageMap {virt : Nat} (valid : WellFormed machine root)
    (low : virt < 2 ^ 47) :
    view machine.memory root virt = pageMap machine root (virt / pageSize) := by
  rw [pageMap, hardwareWalk_page, valid.hardwareWalk_eq (.inl low)]

end Steps

/-- Calls on low-half addresses, with a physical address that an entry can
hold. -/
def VmmEvent.LowHalf : VmmEvent → Prop
  | .map virt phys _ _ => virt < 2 ^ 47 ∧ phys < 2 ^ 52
  | .unmap virt _ => virt < 2 ^ 47
  | .other => True

/-- Every step on a low-half address is a step of the page map. -/
theorem VmmStep.simulates {machine machine' : Machine} {root : Nat} {event : VmmEvent}
    (nonzero : root ≠ 0) (valid : WellFormed machine root) (low : event.LowHalf)
    (step : VmmStep root machine event machine') :
    PageMap.Step (pageMap machine root) event (pageMap machine' root) := by
  have valid' := step.wellFormed nonzero valid
  cases step with
  | @map _ virt phys flags ok called =>
      rcases mapPagePml4_spec virt phys flags valid with
        ⟨failed, silent⟩ | ⟨succeeded, replaced⟩
      · rw [called] at failed silent
        cases failed
        rw [pageMap_congr valid valid' silent.view_eq]
        exact .refused _ _ _ _
      · rw [called] at succeeded replaced
        cases succeeded
        rw [pageMap_replaces valid replaced low.1, pageView_leafEntry low.2]
        exact .mapped _ _ _ _
  | @unmap _ virt frame called =>
      rcases unmapPagePml4_spec virt valid nonzero with
        ⟨same, supervisor⟩ | ⟨translation, found, returned, replaced⟩
      · rw [called] at same
        cases same
        rw [view_eq_pageMap valid low] at supervisor
        exact .absent _ _ supervisor
      · rw [called] at returned replaced
        rw [view_eq_pageMap valid low] at found
        rw [pageMap_replaces valid replaced low]
        cases returned
        exact .unmapped _ _ _ found
  | other untouched =>
      rw [pageMap_congr valid valid' (leafView_elsewhere fun path table short reached =>
        (untouched path table short reached).1)]
      exact .other _

/-- Every address space that the kernel creates and edits is well formed. -/
theorem wellFormed_of_run {boot machine machine' : Machine} {source root : Nat}
    {events : List VmmEvent} (kernel : KernelSpace boot (sourceRoot boot source))
    (created : newAddressSpace boot source = some (root, machine))
    (run : Run (VmmStep root) machine events machine') :
    root ≠ 0 ∧ WellFormed machine' root := by
  obtain ⟨nonzero, inherits⟩ := newAddressSpace_inherits kernel.toWellFormed created
  exact ⟨nonzero, @Run.invariant _ _ _ _ _ _ (fun state => WellFormed state root)
    (fun _ => True) (fun _ _ _ good _ step => step.wellFormed nonzero good) run
    inherits.wellFormed (fun _ _ => trivial)⟩

/-- In an address space created from the kernel's tree, mapping and unmapping
low-half pages refine the abstract page map, and the user pages are exactly those
mapped with the user bit and not since unmapped or remapped. -/
theorem mapping_refines_pageMap {boot machine machine' : Machine} {source root : Nat}
    {events : List VmmEvent} (kernel : KernelSpace boot (sourceRoot boot source))
    (created : newAddressSpace boot source = some (root, machine))
    (run : Run (VmmStep root) machine events machine')
    (low : ∀ event ∈ events, event.LowHalf) :
    Run PageMap.Step (pageMap machine root) events (pageMap machine' root) ∧
      ∀ page, (pageMap machine' root).UserAccessible page ↔ UserMapped events page := by
  obtain ⟨nonzero, inherits⟩ := newAddressSpace_inherits kernel.toWellFormed created
  have abstractRun : Run PageMap.Step (pageMap machine root) events (pageMap machine' root) :=
    @Run.simulate _ _ _ _ _ _ _ (fun state => WellFormed state root) VmmEvent.LowHalf
      PageMap.Step (fun state => pageMap state root)
      (fun _ _ _ valid admissible step =>
        ⟨step.wellFormed nonzero valid, step.simulates nonzero valid admissible⟩)
      run inherits.wellFormed low
  refine ⟨abstractRun, userAccessible_iff ?_ abstractRun⟩
  -- nothing that is inherited is open to user accesses
  rintro page ⟨translation, found, access⟩
  by_cases canonical : Canonical (page * pageSize)
  · simp only [pageMap] at found
    rw [inherits.wellFormed.hardwareWalk_eq canonical, view, inherits.view_eq] at found
    split at found
    · rw [kernel.closed _ _ _ _ _ found] at access
      cases access
    · cases found
  · simp [pageMap, hardwareWalk, canonical] at found

/-- A user page is mapped into the first 2 MiB page and unmapped again. -/
theorem mapping_refines_pageMap_after_boot :
    ∃ root machine ok machine' frame machine'',
      newAddressSpace (bootMachine fun _ => 0) 0 = some (root, machine) ∧
      mapPagePml4 machine root 0x1000 0x900000 7 = (ok, machine') ∧
      unmapPagePml4 machine' root 0x1000 = (frame, machine'') ∧
      Run PageMap.Step (pageMap machine root)
        [.map 0x1000 0x900000 7 ok, .unmap 0x1000 frame] (pageMap machine'' root) ∧
      ∀ page, (pageMap machine'' root).UserAccessible page ↔
        UserMapped [.map 0x1000 0x900000 7 ok, .unmap 0x1000 frame] page := by
  obtain ⟨root, machine, -, created, -⟩ := newAddressSpace_bootMachine fun _ => 0
  rcases mapped : mapPagePml4 machine root 0x1000 0x900000 7 with ⟨ok, machine'⟩
  rcases unmapped : unmapPagePml4 machine' root 0x1000 with ⟨frame, machine''⟩
  have run : Run (VmmStep root) machine
      [.map 0x1000 0x900000 7 ok, .unmap 0x1000 frame] machine'' :=
    (Run.start.next (.map mapped)).next (.unmap unmapped)
  have low : ∀ event ∈ [VmmEvent.map 0x1000 0x900000 7 ok, .unmap 0x1000 frame],
      event.LowHalf := by
    simp [VmmEvent.LowHalf]
  exact ⟨root, machine, ok, machine', frame, machine'', created, mapped, unmapped,
    mapping_refines_pageMap (kernelSpace_bootMachine _) created run low⟩

end Charis.Memory
