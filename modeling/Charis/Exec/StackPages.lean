import Charis.Memory.PmmBoot
import Charis.Exec.ElfImage
import Charis.Exec.ExecCall

/-!
# The pages of a program's stack

`elf_setup_stack` looks for two pages near the top of user memory at which nothing is
mapped, enters fresh pages there and, when it fails, takes away as many of them as it has
counted.
-/

namespace Charis.Exec

open Charis.Lib
open Charis.Memory
open Charis.Memory.Entry

/-- The two pages below a stack top are free for `vmm_walk`. -/
def WindowFree (machine : Machine) (root stackTop : Nat) : Prop :=
  occupied machine root (stackTop - 2 * pageSize) = false ∧
    occupied machine root (stackTop - pageSize) = false

section Search

variable {machine : Machine} {root attempts stackTop found virt : Nat}

/-- The search returns one of the stack tops that it tries, with free pages below. -/
theorem findStack_eq_some (done : findStack machine root attempts stackTop = some found) :
    ∃ attempt < attempts, found + attempt * pageSize = stackTop ∧ 2 * pageSize ≤ found ∧
      WindowFree machine root found := by
  induction attempts generalizing stackTop with
  | zero => cases done
  | succ attempts ih =>
  simp only [findStack] at done
  split at done
  · cases done
  next room =>
  split at done
  · obtain ⟨attempt, below, same, fits, free⟩ := ih done
    refine ⟨attempt + 1, Nat.succ_lt_succ below, ?_, fits, free⟩
    rw [Nat.succ_mul, ← Nat.add_assoc, same]
    exact Nat.sub_add_cancel ((Nat.le_mul_of_pos_left _ Nat.two_pos).trans
      (Nat.not_lt.mp room))
  · next free =>
    simp only [Bool.or_eq_true, not_or, Bool.not_eq_true] at free
    cases done
    exact ⟨0, Nat.succ_pos _, by omega, Nat.not_lt.mp room, free⟩

/-- The search finds a window when there is one among those that it tries. -/
theorem exists_findStack {attempt : Nat} (below : attempt < attempts)
    (room : 2 * pageSize + attempt * pageSize ≤ stackTop)
    (free : WindowFree machine root (stackTop - attempt * pageSize)) :
    ∃ found, findStack machine root attempts stackTop = some found := by
  induction attempts generalizing stackTop attempt with
  | zero => cases below
  | succ attempts ih =>
  have fits : ¬ stackTop < 2 * pageSize := by
    simp only [pageSize] at *
    omega
  simp only [findStack, fits, if_false]
  split
  · next taken =>
    cases attempt with
    | zero =>
        rw [Nat.zero_mul, Nat.sub_zero] at free
        rw [free.1, free.2] at taken
        cases taken
    | succ attempt =>
        apply ih (Nat.lt_of_succ_lt_succ below)
        · rw [Nat.succ_mul attempt, ← Nat.add_assoc] at room
          exact Nat.le_sub_of_add_le room
        · rwa [Nat.sub_sub, Nat.add_comm, ← Nat.succ_mul]
  · exact ⟨stackTop, rfl⟩

/-- Outside 2 MiB pages the search and the processor agree on what is free. -/
theorem unmapped_of_not_occupied (valid : WellFormed machine root) (low : virt < userLimit)
    (small : ¬ LargePage machine.memory root virt)
    (free : occupied machine root virt = false) :
    hardwareWalk machine.memory root virt = none := by
  rw [valid.hardwareWalk_eq (.inl low)]
  cases directory : tableAt machine.memory root [pml4Index virt, pdptIndex virt] with
  | none => exact view_of_no_directory directory
  | some pd =>
  cases used : present (readEntry machine.memory pd (pdIndex virt)) with
  | false =>
      rw [view_of_directory directory (child_eq_none_of_not_present used), hugeView, used,
        if_neg Bool.false_ne_true]
  | true =>
  cases large : huge (readEntry machine.memory pd (pdIndex virt)) with
  | true => exact absurd ⟨pd, directory, used, large⟩ small
  | false =>
  have reached : tableAt machine.memory root (tablePath virt) = some _ :=
    (tableAt_snoc directory (pdIndex virt)).trans
      (child_eq_some_iff.mpr ⟨used, large, rfl⟩)
  rw [occupied, userEntry_eq valid, directory, Option.bind_some, used, if_pos rfl] at free
  rw [view_of_page reached, pageView, if_neg]
  simpa using free

/-- Where nothing is mapped the search finds nothing. -/
theorem not_occupied_of_unmapped (valid : WellFormed machine root)
    (unmapped : view machine.memory root virt = none) :
    occupied machine root virt = false := by
  rw [occupied, userEntry_eq valid]
  cases directory : tableAt machine.memory root [pml4Index virt, pdptIndex virt] with
  | none => rfl
  | some pd =>
  rw [Option.bind_some]
  cases used : present (readEntry machine.memory pd (pdIndex virt)) with
  | false => rfl
  | true =>
  cases large : huge (readEntry machine.memory pd (pdIndex virt)) with
  | true =>
      rw [view_of_directory directory (child_eq_none_of_huge large), hugeView, used,
        if_pos rfl] at unmapped
      cases unmapped
  | false =>
  have reached : tableAt machine.memory root (tablePath virt) = some _ :=
    (tableAt_snoc directory (pdIndex virt)).trans
      (child_eq_some_iff.mpr ⟨used, large, rfl⟩)
  rw [view_of_page reached, pageView] at unmapped
  rw [if_pos rfl]
  split at unmapped
  · cases unmapped
  · next absent => simpa using absent

end Search

/-! ## Pages of the stack -/

/-- The pages from an address on. -/
def window (addr count : Nat) : Set Nat :=
  {page | addr ≤ page * pageSize ∧ page * pageSize < addr + count * pageSize}

theorem window_zero (addr : Nat) : window addr 0 = ∅ := by
  ext page
  simp only [window, Set.mem_ofPred_eq, Set.mem_empty_iff_false, iff_false]
  omega

/-- A window is its first page and those behind it. -/
theorem mem_window_succ {addr count page : Nat} (aligned : addr % pageSize = 0) :
    page ∈ window addr (count + 1) ↔
      page = addr / pageSize ∨ page ∈ window (addr + pageSize) count := by
  simp only [window, Set.mem_ofPred_eq, pageSize] at *
  omega

theorem notMem_window_succ (addr count : Nat) :
    addr / pageSize ∉ window (addr + pageSize) count := by
  simp only [window, Set.mem_ofPred_eq, pageSize]
  omega

/-- State of `elf_setup_stack`: the given pages have been entered on fresh frames, and the
rest is as at the start. -/
structure Staged (start machine : Machine) (root : Nat) (pages : Set Nat)
    (content : ByteMemory) : Prop extends Loaded start machine root pages content where
  entered : ∀ page ∈ pages, ∃ phys, start.pmm.Available phys ∧
    pageMap machine root page = some (requested phys stackFlags)
  given : ∀ phys, machine.pmm.Available phys → start.pmm.Available phys

namespace Loaded

variable {start machine machine' : Machine} {root : Nat} {pages : Set Nat}
  {content : ByteMemory}

/-- A page is removed at which nothing was mapped at the start. -/
theorem remove (loaded : Loaded start machine root pages content) {addr : Nat}
    (low : addr < userLimit) (absent : pageMap start root (addr / pageSize) = none)
    (replaced : Replaces machine machine' root addr none) :
    Loaded start machine' root (pages \ {addr / pageSize}) content := by
  have newPages := pageMap_replaces loaded.wellFormed replaced low
  have samePage {page : Nat} (different : page ≠ addr / pageSize) :
      pageMap machine' root page = pageMap machine root page := by
    rw [newPages, Function.update_of_ne different]
  exact {
    wellFormed := replaced.wellFormed
    kept := by
      intro page outside
      by_cases here : page = addr / pageSize
      · rw [here, newPages, Function.update_self, absent]
      · rw [samePage here]
        exact loaded.kept page fun member => outside ⟨member, here⟩
    mapped := fun page member =>
      loaded.mapped_of_grown replaced.toGrown member.1 (samePage member.2)
    distinct := by
      intro page member page' member' translation translation' found found'
      rw [samePage member.2] at found
      rw [samePage member'.2] at found'
      exact loaded.distinct page member.1 page' member'.1 translation translation' found found' }

/-- A page that belongs to nobody is given back. -/
theorem free (loaded : Loaded start machine root pages content) {phys : Nat}
    (isPage : Pmm.IsPage phys) (foreign : Foreign machine root phys)
    (apart : Apart machine root pages phys) :
    pageMap { machine with pmm := machine.pmm.freePage phys } root = pageMap machine root ∧
      Loaded start { machine with pmm := machine.pmm.freePage phys } root pages content := by
  apply loaded.untouched
  · intro path table short reached
    refine ⟨ByteMemory.AgreeOn.refl _ _ _, fun freed => ?_⟩
    rcases (Pmm.available_freePage isPage).mp freed with before | rfl
    · exact loaded.wellFormed.owned path table short reached before
    · exact foreign.2 path short reached
  · rintro page - outside ⟨held, member, translation, found, rfl⟩
    refine ⟨fun freed => ?_, ByteMemory.AgreeOn.refl _ _ _⟩
    rcases (Pmm.available_freePage isPage).mp freed with before | same
    · exact outside.1 before
    · exact apart held member translation found same

end Loaded

theorem frame_requested {phys : Nat} (aligned : phys % 4096 = 0) (flags : Entry) :
    (requested phys flags).frame = phys :=
  Nat.div_mul_cancel (Nat.dvd_of_mod_eq_zero aligned)

theorem unmapPagePml4_pmm (machine : Machine) (root virt : Nat) :
    (unmapPagePml4 machine root virt).2.pmm = machine.pmm := by
  unfold unmapPagePml4
  dsimp only
  split_ifs <;> rfl

/-- The pages that `pmm_alloc_page` returns to the page loop of `elf_setup_stack`. -/
def takenPages (pml4 : Nat) : (count addr : Nat) → Machine → List Nat
  | 0, _, _ => []
  | count + 1, addr, machine =>
      if machine.pmm.allocPage.1 = 0 then []
      else
        machine.pmm.allocPage.1 ::
          match mapFreshPage machine pml4 addr stackFlags with
          | (false, _) => []
          | (true, machine) => takenPages pml4 count (addr + pageSize) machine

namespace Staged

variable {start machine machine' : Machine} {root addr count : Nat} {pages : Set Nat}
  {content : ByteMemory}

theorem refl (valid : WellFormed machine root) (content : ByteMemory) :
    Staged machine machine root ∅ content where
  toLoaded := Loaded.refl valid content
  entered := fun _ member => absurd member (Set.notMem_empty _)
  given := fun _ free => free

/-- An edit that keeps the stage. -/
theorem of_same (staged : Staged start machine root pages content) {content' : ByteMemory}
    (loaded : Loaded start machine' root pages content')
    (samePages : pageMap machine' root = pageMap machine root)
    (given : ∀ phys, machine'.pmm.Available phys → start.pmm.Available phys) :
    Staged start machine' root pages content' where
  toLoaded := loaded
  entered := by
    rw [samePages]
    exact staged.entered
  given := given

theorem mapFreshPage (staged : Staged start machine root pages content) {ok : Bool}
    (aligned : addr % pageSize = 0) (low : addr < userLimit)
    (done : Exec.mapFreshPage machine root addr stackFlags = (ok, machine')) :
    (ok = false ∧ Staged start machine' root pages content ∧
        pageMap machine' root = pageMap machine root ∧
        (machine.pmm.allocPage.1 ≠ 0 → machine'.pmm.Available machine.pmm.allocPage.1)) ∨
      (ok = true ∧ machine.pmm.Available machine.pmm.allocPage.1 ∧
        Staged start machine' root (insert (addr / pageSize) pages)
          (content.fill addr pageSize 0) ∧
        pageMap machine' root = Function.update (pageMap machine root) (addr / pageSize)
          (some (requested machine.pmm.allocPage.1 stackFlags))) := by
  rw [Exec.mapFreshPage] at done
  rcases machine.pmm.allocPage_cases with failed | taken
  · simp only [failed, ↓reduceIte, Prod.mk.injEq] at done
    obtain ⟨rfl, rfl⟩ := done
    exact .inl ⟨rfl, staged, rfl, by simp [failed]⟩
  dsimp only at done
  rw [if_neg taken.1.pos.ne'] at done
  generalize machine.pmm.allocPage.1 = phys at done taken
  generalize machine.pmm.allocPage.2 = pmm at done taken
  set cleared : Machine :=
    { machine with memory := machine.memory.fill phys pageSize 0, pmm } with clear
  have physAligned := taken.1.aligned
  have physSmall : phys < 2 ^ 52 := taken.1.lt.trans (by norm_num)
  have frame := frame_requested physAligned stackFlags
  obtain ⟨samePages, loaded, foreign, apart⟩ := staged.toLoaded.take taken clear
  have given (query : Nat) (free : cleared.pmm.Available query) :
      start.pmm.Available query :=
    staged.given query ((taken.2 query).mp free).1
  rcases mapped : mapPagePml4 cleared root addr phys stackFlags with ⟨entered, state⟩
  rw [mapped] at done
  rcases mapPagePml4_spec addr phys stackFlags loaded.wellFormed with
    ⟨failed, silent⟩ | ⟨succeeded, replaced⟩
  · rw [mapped] at failed silent
    cases failed
    cases done
    obtain ⟨keptPages, after⟩ := loaded.silent silent
    have apart' : Loaded.Apart state root pages phys := by
      intro page member translation found
      rw [keptPages] at found
      exact apart page member translation found
    obtain ⟨freedPages, freed⟩ := after.free taken.1.isPage
      (silent.foreign phys physAligned foreign).1 apart'
    have same := freedPages.trans (keptPages.trans samePages)
    refine .inl ⟨rfl, staged.of_same freed same ?_, same, fun _ => ?_⟩
    · intro query available
      rcases (Pmm.available_freePage taken.1.isPage).mp available with before | rfl
      · exact given query (silent.available query before)
      · exact staged.given _ taken.1
    · exact (Pmm.available_freePage taken.1.isPage).mpr (.inr rfl)
  rw [mapped] at succeeded replaced
  rw [pageView_leafEntry physSmall] at replaced
  cases succeeded
  cases done
  have newPages := pageMap_replaces loaded.wellFormed replaced low
  rw [samePages] at newPages
  refine .inr ⟨rfl, taken.1, ?_, newPages⟩
  exact {
    toLoaded := by
      apply loaded.enter rfl frame physAligned foreign apart ?_ aligned low replaced
      intro offset inside
      exact ByteMemory.fill_of_inside (by omega) (by omega)
    entered := by
      intro page member
      rw [newPages]
      by_cases here : page = addr / pageSize
      · rw [here, Function.update_self]
        exact ⟨phys, staged.given phys taken.1, rfl⟩
      · rw [Function.update_of_ne here]
        exact staged.entered page (member.resolve_left here)
    given := fun query free => given query (replaced.available query free) }

/-- The page loop enters as many pages as it counts, and each page that it has taken is on
one of them or has been given back. -/
theorem mapStackPages (staged : Staged start machine root pages content) {ok : Bool}
    {mapped mapped' : Nat} (aligned : addr % pageSize = 0)
    (low : addr + count * pageSize ≤ userLimit)
    (done : Exec.mapStackPages root count addr mapped machine = (ok, mapped', machine')) :
    ∃ entered ≤ count, mapped' = mapped + entered ∧ (ok = true → entered = count) ∧
      Staged start machine' root (window addr entered ∪ pages)
        (content.fill addr (entered * pageSize) 0) ∧
      (∀ page ∉ window addr entered, pageMap machine' root page = pageMap machine root page) ∧
      ∀ phys ∈ takenPages root count addr machine, machine'.pmm.Available phys ∨
        ∃ page ∈ window addr entered, ∃ translation,
          pageMap machine' root page = some translation ∧ translation.frame = phys := by
  induction count generalizing addr mapped machine pages content with
  | zero =>
      cases done
      refine ⟨0, Nat.le_refl 0, rfl, fun _ => rfl, ?_, fun _ _ => rfl, nofun⟩
      rw [window_zero, Set.empty_union, Nat.zero_mul, ByteMemory.fill_zero_length]
      exact staged
  | succ count ih =>
  have here : addr < userLimit := by
    simp only [pageSize, userLimit] at *
    omega
  rcases fresh : Exec.mapFreshPage machine root addr stackFlags with ⟨entered, state⟩
  simp only [Exec.mapStackPages, fresh] at done
  simp only [takenPages, fresh]
  rcases staged.mapFreshPage aligned here fresh with
    ⟨rfl, after, samePages, freed⟩ | ⟨rfl, available, after, newPages⟩
  · cases done
    refine ⟨0, Nat.zero_le _, rfl, nofun, ?_, fun page _ => congrFun samePages page, ?_⟩
    · rw [window_zero, Set.empty_union, Nat.zero_mul, ByteMemory.fill_zero_length]
      exact after
    · intro phys member
      split at member
      · cases member
      · next nonzero =>
        rw [List.mem_singleton] at member
        subst member
        exact .inl (freed nonzero)
  have alignedNext : (addr + pageSize) % pageSize = 0 := by
    rw [Nat.add_mod_right, aligned]
  have lowNext : addr + pageSize + count * pageSize ≤ userLimit := by
    rwa [Nat.add_assoc, Nat.add_comm pageSize, ← Nat.succ_mul]
  obtain ⟨more, le, rfl, whole, final, kept, taken⟩ := ih after alignedNext lowNext done
  have first := kept _ (notMem_window_succ addr more)
  rw [newPages, Function.update_self] at first
  have pagesEq : window (addr + pageSize) more ∪ insert (addr / pageSize) pages =
      window addr (more + 1) ∪ pages := by
    ext page
    rw [Set.mem_union, Set.mem_insert_iff, Set.mem_union, mem_window_succ aligned,
      or_left_comm, or_assoc]
  refine ⟨more + 1, Nat.succ_le_succ le, by omega, fun all => by rw [whole all], ?_, ?_, ?_⟩
  · rw [pagesEq, ByteMemory.fill_fill, Nat.add_comm pageSize, ← Nat.succ_mul] at final
    exact final
  · intro page outside
    rw [mem_window_succ aligned, not_or] at outside
    rw [kept page outside.2, newPages, Function.update_of_ne outside.1]
  · intro phys member
    rw [if_neg available.pos.ne', List.mem_cons] at member
    rcases member with rfl | later
    · exact .inr ⟨_, (mem_window_succ aligned).mpr (.inl rfl), _, first,
        frame_requested available.aligned _⟩
    · rcases taken phys later with free | ⟨page, inside, found⟩
      · exact .inl free
      · exact .inr ⟨page, (mem_window_succ aligned).mpr (.inr inside), found⟩

/-- A page is removed and its frame given back. -/
theorem unmapPage (staged : Staged start machine root pages content) (nonzero : root ≠ 0)
    (low : addr < userLimit) (member : addr / pageSize ∈ pages)
    (absent : pageMap start root (addr / pageSize) = none) :
    ∃ phys state, unmapPagePml4 machine root addr = (phys, state) ∧ phys ≠ 0 ∧
      (∃ translation, pageMap machine root (addr / pageSize) = some translation ∧
        translation.frame = phys) ∧
      Staged start { state with pmm := state.pmm.freePage phys } root
        (pages \ {addr / pageSize}) content ∧
      (∀ page, page ≠ addr / pageSize →
        pageMap { state with pmm := state.pmm.freePage phys } root page =
          pageMap machine root page) ∧
      ∀ query, (state.pmm.freePage phys).Available query ↔
        machine.pmm.Available query ∨ query = phys := by
  obtain ⟨translation, found, access, aligned, foreign, -⟩ := staged.mapped _ member
  obtain ⟨phys, available, entered⟩ := staged.entered _ member
  rw [entered] at found
  cases found
  have frame := frame_requested available.aligned stackFlags
  rcases unmapPagePml4_spec addr staged.wellFormed nonzero with
    ⟨-, supervisor⟩ | ⟨other, read, returned, replaced⟩
  · rw [view_eq_pageMap staged.wellFormed low] at supervisor
    rw [supervisor _ entered] at access
    cases access
  rw [view_eq_pageMap staged.wellFormed low, entered] at read
  cases read
  rw [frame] at returned foreign
  have samePmm := unmapPagePml4_pmm machine root addr
  rcases called : unmapPagePml4 machine root addr with ⟨phys', state⟩
  rw [called] at returned replaced samePmm
  dsimp only at returned samePmm
  subst returned
  have newPages := pageMap_replaces staged.wellFormed replaced low
  have isPage := available.isPage
  have removed := staged.toLoaded.remove low absent replaced
  have apart : Loaded.Apart state root (pages \ {addr / pageSize}) phys' := by
    rintro page ⟨old, different⟩ translation found same
    rw [newPages, Function.update_of_ne different] at found
    exact different (staged.distinct page old _ member _ _ found entered
      (same.trans frame.symm))
  obtain ⟨freedPages, freed⟩ :=
    removed.free isPage (replaced.foreign _ available.aligned foreign).1 apart
  have keptPage (page : Nat) (different : page ≠ addr / pageSize) :
      pageMap { state with pmm := state.pmm.freePage phys' } root page =
        pageMap machine root page := by
    rw [freedPages, newPages, Function.update_of_ne different]
  have availability (query : Nat) : (state.pmm.freePage phys').Available query ↔
      machine.pmm.Available query ∨ query = phys' := by
    rw [Pmm.available_freePage isPage, samePmm]
  refine ⟨phys', state, rfl, available.pos.ne', ⟨_, entered, frame⟩, ?_, keptPage,
    availability⟩
  exact {
    toLoaded := freed
    entered := by
      rintro page ⟨old, different⟩
      rw [keptPage page different]
      exact staged.entered page old
    given := by
      intro query free
      rcases (availability query).mp free with before | rfl
      · exact staged.given query before
      · exact available }

/-- The rollback takes the window away and gives all its frames back. -/
theorem rollbackStack (staged : Staged start machine root (window addr count) content)
    (nonzero : root ≠ 0) (aligned : addr % pageSize = 0)
    (low : addr + count * pageSize ≤ userLimit)
    (absent : ∀ page ∈ window addr count, pageMap start root page = none) :
    Staged start (Exec.rollbackStack root count addr machine) root ∅ content ∧
      ∀ phys, (machine.pmm.Available phys ∨ ∃ page ∈ window addr count, ∃ translation,
          pageMap machine root page = some translation ∧ translation.frame = phys) →
        (Exec.rollbackStack root count addr machine).pmm.Available phys := by
  induction count generalizing addr machine with
  | zero =>
      rw [window_zero] at staged
      refine ⟨staged, ?_⟩
      rintro phys (free | ⟨page, member, -⟩)
      · exact free
      · rw [window_zero] at member
        cases member
  | succ count ih =>
  have first : addr / pageSize ∈ window addr (count + 1) :=
    (mem_window_succ aligned).mpr (.inl rfl)
  have here : addr < userLimit := by
    simp only [pageSize, userLimit] at *
    omega
  obtain ⟨phys, state, called, some, ⟨translation, found, frame⟩, after, kept, free⟩ :=
    staged.unmapPage nonzero here first (absent _ first)
  have rest : window addr (count + 1) \ {addr / pageSize} =
      window (addr + pageSize) count := by
    ext page
    simp only [Set.mem_sdiff, Set.mem_singleton_iff, mem_window_succ aligned]
    constructor
    · rintro ⟨rfl | later, different⟩
      · exact absurd rfl different
      · exact later
    · intro later
      refine ⟨.inr later, ?_⟩
      rintro rfl
      exact notMem_window_succ addr count later
  rw [rest] at after
  simp only [Exec.rollbackStack, called, some, if_false]
  obtain ⟨final, returned⟩ := ih after (by rw [Nat.add_mod_right, aligned])
    (by rwa [Nat.add_assoc, Nat.add_comm pageSize, ← Nat.succ_mul])
    (fun page member => absent page ((mem_window_succ aligned).mpr (.inr member)))
  refine ⟨final, ?_⟩
  rintro query (before | ⟨page, member, other, read, same⟩)
  · exact returned query (.inl ((free query).mpr (.inl before)))
  · rcases (mem_window_succ aligned).mp member with rfl | later
    · rw [found] at read
      cases read
      exact returned query (.inl ((free query).mpr (.inr (same.symm.trans frame))))
    · refine returned query (.inr ⟨page, later, other, ?_, same⟩)
      rw [kept page, read]
      rintro rfl
      exact notMem_window_succ addr count later

/-- Bytes are stored on pages of the stack. -/
theorem elfWriteUser (staged : Staged start machine root pages content) {address : Nat}
    {bytes : List UInt8}
    (members : ∀ offset < bytes.length, (address + offset) / pageSize ∈ pages) :
    ∃ machine', Exec.elfWriteUser machine root address bytes = (true, machine') ∧
      Staged start machine' root pages (content.storeBytes address bytes) ∧
      pageMap machine' root = pageMap machine root ∧ machine'.pmm = machine.pmm := by
  obtain ⟨machine', written, after, samePages⟩ := staged.toLoaded.elfWriteUser members
  have samePmm := elfWriteUser_pmm written
  refine ⟨machine', written, staged.of_same after samePages ?_, samePages, samePmm⟩
  rw [samePmm]
  exact staged.given

end Staged

end Charis.Exec
