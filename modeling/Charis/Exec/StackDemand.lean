import Charis.Memory.CurrentSpace
import Charis.Exec.StackSetup

/-!
# The pages that a stack takes

How many pages the allocator must have for the two pages of a stack: the pages themselves
and the tables that are missing on the way to them.
-/

namespace Charis.Exec

open Charis.Lib
open Charis.Memory
open Charis.Memory.Entry

/-- How many tables `vmm_map_page_pml4` takes from the allocator for an address, the one that a
2 MiB page is split into included. -/
def missingTables (memory : ByteMemory) (root virt : Nat) : Nat :=
  if (tableAt memory root (tablePath virt)).isSome then 0
  else if (tableAt memory root [pml4Index virt, pdptIndex virt]).isSome then 1
  else if (tableAt memory root [pml4Index virt]).isSome then 2
  else 3

section Tables

variable {machine machine' : Machine} {root virt count : Nat}

theorem missingTables_mono {memory memory' : ByteMemory}
    (reached : ∀ path table, path.length ≤ 3 → tableAt memory root path = some table →
      tableAt memory' root path = some table) :
    missingTables memory' root virt ≤ missingTables memory root virt := by
  have still {path : List (Fin 512)} (short : path.length ≤ 3)
      (before : (tableAt memory root path).isSome) : (tableAt memory' root path).isSome := by
    obtain ⟨table, here⟩ := Option.isSome_iff_exists.mp before
    rw [reached path table short here]
    rfl
  simp only [missingTables]
  by_cases first : (tableAt memory root (tablePath virt)).isSome
  · rw [if_pos (still (length_tablePath virt).le first)]
    exact Nat.zero_le _
  by_cases second : (tableAt memory root [pml4Index virt, pdptIndex virt]).isSome
  · rw [if_neg first, if_pos second, if_pos (still (by simp) second)]
    split <;> omega
  by_cases third : (tableAt memory root [pml4Index virt]).isSome
  · rw [if_neg first, if_neg second, if_pos third, if_pos (still (by simp) third)]
    split
    · omega
    · split <;> omega
  · rw [if_neg first, if_neg second, if_neg third]
    split_ifs <;> omega

theorem getOrCreateTable_of_present {parent : Nat} {index : Fin 512}
    (used : present (readEntry machine.memory parent index) = true) :
    getOrCreateTable machine parent index 0 = (true, machine) := by
  simp only [getOrCreateTable, used, if_true]

/-- The last table on the way costs a page, now or when a 2 MiB page is split. -/
theorem lastTable_succeeds (plenty : machine.pmm.Plenty (count + 1)) (parent : Nat)
    (index : Fin 512) :
    ∃ machine', getOrCreateTable machine parent index 0 = (true, machine') ∧
      machine'.pmm.Plenty count ∧
      (huge (readEntry machine'.memory parent index) = true →
        machine'.pmm.Plenty (count + 1)) := by
  cases used : present (readEntry machine.memory parent index) with
  | true =>
      exact ⟨machine, getOrCreateTable_of_present used, plenty.mono (Nat.le_succ count),
        fun _ => plenty⟩
  | false =>
  obtain ⟨taken, rest⟩ := plenty.allocPage
  have small : machine.pmm.allocPage.1 < 2 ^ 52 := taken.1.lt.trans (by norm_num)
  refine ⟨{ machine with
    memory := writeEntry (machine.memory.fill machine.pmm.allocPage.1 pageSize 0) parent
      index (tableEntry machine.pmm.allocPage.1 0)
    pmm := machine.pmm.allocPage.2 }, ?_, rest, fun large => ?_⟩
  · simp only [getOrCreateTable, used, Bool.false_eq_true, if_false, taken.1.pos.ne']
  rw [readEntry_writeEntry_self, huge_tableEntry taken.1.aligned small] at large
  cases large

/-- The tables on the way are made from as many pages as are missing. -/
theorem reachDirectory_succeeds
    (plenty : machine.pmm.Plenty (count + missingTables machine.memory root virt)) :
    ∃ pdpt pd machine', reachDirectory machine root virt = (some (pdpt, pd), machine') ∧
      machine'.pmm.Plenty count ∧
      (huge (readEntry machine'.memory pd (pdIndex virt)) = true →
        machine'.pmm.Plenty (count + 1)) := by
  have linked {table next : Nat} {index : Fin 512}
      (link : child machine.memory table index = some next) :
      getOrCreateTable machine table index 0 = (true, machine) :=
    getOrCreateTable_of_present (child_eq_some_iff.mp link).1
  simp only [missingTables] at plenty
  split at plenty
  · next found =>
    -- all tables are there
    obtain ⟨pt, reached⟩ := Option.isSome_iff_exists.mp found
    obtain ⟨pdpt, first, below⟩ := Option.bind_eq_some_iff.mp reached
    obtain ⟨pd, second, last⟩ := Option.bind_eq_some_iff.mp below
    obtain ⟨table, third, -⟩ := Option.bind_eq_some_iff.mp last
    obtain ⟨-, -, rfl⟩ := child_eq_some_iff.mp first
    obtain ⟨-, -, rfl⟩ := child_eq_some_iff.mp second
    obtain ⟨-, small, -⟩ := child_eq_some_iff.mp third
    refine ⟨_, _, machine, by
      simp only [reachDirectory, linked first, linked second, linked third]
      rfl, plenty, fun large => ?_⟩
    rw [small] at large
    cases large
  split at plenty
  · next found =>
    obtain ⟨pd, reached⟩ := Option.isSome_iff_exists.mp found
    obtain ⟨pdpt, first, below⟩ := Option.bind_eq_some_iff.mp reached
    obtain ⟨table, second, -⟩ := Option.bind_eq_some_iff.mp below
    obtain ⟨-, -, rfl⟩ := child_eq_some_iff.mp first
    obtain ⟨machine', created, enough, split⟩ := lastTable_succeeds plenty
      (tableAddress (readEntry machine.memory
        (tableAddress (readEntry machine.memory root (pml4Index virt))) (pdptIndex virt)))
      (pdIndex virt)
    exact ⟨_, _, machine', by
      simp only [reachDirectory, linked first, linked second, created]
      rfl, enough, split⟩
  split at plenty
  · next found =>
    obtain ⟨pdpt, reached⟩ := Option.isSome_iff_exists.mp found
    obtain ⟨table, first, -⟩ := Option.bind_eq_some_iff.mp reached
    obtain ⟨machine₁, created₁, left⟩ := getOrCreateTable_succeeds plenty
      (tableAddress (readEntry machine.memory root (pml4Index virt))) (pdptIndex virt) 0
    obtain ⟨machine₂, created₂, enough, split⟩ := lastTable_succeeds left
      (tableAddress (readEntry machine₁.memory
        (tableAddress (readEntry machine.memory root (pml4Index virt))) (pdptIndex virt)))
      (pdIndex virt)
    exact ⟨_, _, machine₂, by
      simp only [reachDirectory, linked first, created₁, created₂]
      rfl, enough, split⟩
  · obtain ⟨machine₁, created₁, left₁⟩ :=
      getOrCreateTable_succeeds plenty root (pml4Index virt) 0
    obtain ⟨machine₂, created₂, left₂⟩ := getOrCreateTable_succeeds left₁
      (tableAddress (readEntry machine₁.memory root (pml4Index virt))) (pdptIndex virt) 0
    obtain ⟨machine₃, created₃, enough, split⟩ := lastTable_succeeds left₂
      (tableAddress (readEntry machine₂.memory
        (tableAddress (readEntry machine₁.memory root (pml4Index virt))) (pdptIndex virt)))
      (pdIndex virt)
    exact ⟨_, _, machine₃, by
      simp only [reachDirectory, created₁, created₂, created₃]
      rfl, enough, split⟩

/-- A page is mapped when there are pages for the tables that are missing. -/
theorem mapPagePml4_enters (nonzero : root ≠ 0)
    (plenty : machine.pmm.Plenty (count + missingTables machine.memory root virt))
    (phys : Nat) (flags : Entry) :
    ∃ machine', mapPagePml4 machine root virt phys flags = (true, machine') ∧
      machine'.pmm.Plenty count := by
  obtain ⟨pdpt, pd, state, reached, enough, spare⟩ := reachDirectory_succeeds plenty
  rw [mapPagePml4_eq nonzero, reached]
  dsimp only
  split
  · next large =>
    obtain ⟨link, state', divided, left⟩ := splitHugePage_succeeds (spare large) pd
      (pdIndex virt) (readEntry state.memory pd (pdIndex virt))
    rw [divided]
    exact ⟨_, rfl, left⟩
  · exact ⟨_, rfl, enough⟩

theorem exists_table_of_user (valid : WellFormed machine root) {translation : Translation}
    (found : view machine.memory root virt = some translation)
    (access : translation.user = true) :
    ∃ pt, tableAt machine.memory root (tablePath virt) = some pt := by
  cases reached : tableAt machine.memory root (tablePath virt) with
  | some pt => exact ⟨pt, rfl⟩
  | none =>
  unfold tablePath at reached
  simp only [view, leafView, reached] at found
  cases directory : tableAt machine.memory root [pml4Index virt, pdptIndex virt] with
  | none =>
      rw [directory] at found
      cases found
  | some pd =>
  rw [directory] at found
  dsimp only at found
  rw [hugeView] at found
  split at found
  · next used =>
    cases found
    cases large : huge (readEntry machine.memory pd (pdIndex virt)) with
    | true =>
        have closed := valid.large_closed _ pd (pdIndex virt) (by simp) directory used large
        simp [combine, closed] at access
    | false =>
        have link := (tableAt_snoc directory (pdIndex virt)).trans
          (child_eq_some_iff.mpr ⟨used, large, rfl⟩)
        simp only [List.cons_append, List.nil_append] at link
        rw [reached] at link
        cases link
  · cases found

end Tables

/-- The pages that the window from `base` on takes: two, the tables that are missing for the
first page and the one that may be missing for the second. -/
def windowDemand (memory : ByteMemory) (root base : Nat) : Nat :=
  2 + missingTables memory root base +
    if pdIndex (base + pageSize) = pdIndex base then 0
    else min 1 (missingTables memory root (base + pageSize))

/-- Six pages are always enough. -/
theorem windowDemand_le (memory : ByteMemory) (root base : Nat) :
    windowDemand memory root base ≤ 6 := by
  have three : missingTables memory root base ≤ 3 := by
    rw [missingTables]
    split_ifs <;> omega
  rw [windowDemand]
  split <;> omega

section Window

variable {start machine : Machine} {root base count : Nat} {pages : Set Nat}
  {content : ByteMemory}

theorem mapFreshPage_succeeds (valid : WellFormed machine root) (nonzero : root ≠ 0)
    {virt : Nat}
    (plenty : machine.pmm.Plenty (count + missingTables machine.memory root virt + 1))
    (flags : Entry) :
    ∃ machine', mapFreshPage machine root virt flags = (true, machine') ∧
      machine'.pmm.Plenty count ∧
      ∀ path table, path.length ≤ 3 → tableAt machine.memory root path = some table →
        tableAt machine'.memory root path = some table := by
  obtain ⟨taken, rest⟩ := plenty.allocPage
  have untouched := Loaded.untouched_fill valid taken
  set cleared : Machine :=
    { machine with
      memory := machine.memory.fill machine.pmm.allocPage.1 pageSize 0
      pmm := machine.pmm.allocPage.2 }
  have kept := fun path table short reached => (untouched path table short reached).1
  have same {path : List (Fin 512)} (short : path.length ≤ 3) :
      tableAt cleared.memory root path = tableAt machine.memory root path :=
    tableAt_elsewhere kept short
  have validCleared : WellFormed cleared root := valid.elsewhere kept
    fun path table short reached => (untouched path table short reached).2
  have enough : cleared.pmm.Plenty (count + missingTables cleared.memory root virt) := by
    apply rest.mono
    apply Nat.add_le_add_left
    apply missingTables_mono
    intro path table short reached
    exact (same short).trans reached
  obtain ⟨machine', mapped, left⟩ := mapPagePml4_enters nonzero enough
    machine.pmm.allocPage.1 flags
  refine ⟨machine', by simp only [mapFreshPage, taken.1.pos.ne', if_false, cleared, mapped] ,
    left, ?_⟩
  intro path table short reached
  rcases mapPagePml4_spec virt machine.pmm.allocPage.1 flags validCleared with
    ⟨failed, -⟩ | ⟨-, replaced⟩
  · rw [mapped] at failed
    cases failed
  · rw [mapped] at replaced
    exact replaced.reached path table short ((same short).trans reached)

theorem mapStackPages_succeeds (valid : WellFormed machine root) (nonzero : root ≠ 0)
    (aligned : base % pageSize = 0) (low : base + 2 * pageSize ≤ userLimit)
    (upper : pml4Index (base + pageSize) = pml4Index base ∧
      pdptIndex (base + pageSize) = pdptIndex base)
    (plenty : machine.pmm.Plenty (windowDemand machine.memory root base)) :
    ∃ machine', mapStackPages root 2 base 0 machine = (true, 2, machine') := by
  set second := if pdIndex (base + pageSize) = pdIndex base then 0
    else min 1 (missingTables machine.memory root (base + pageSize)) with secondEq
  obtain ⟨machine₁, first, left, reached⟩ := @mapFreshPage_succeeds machine root (second + 1)
    valid nonzero base (by
      refine plenty.mono (Nat.le_of_eq ?_)
      rw [windowDemand, ← secondEq]
      omega) stackFlags
  have here : base < userLimit := by
    simp only [pageSize, userLimit] at *
    omega
  rcases (Staged.refl valid fun _ => 0).mapFreshPage aligned here first with
    ⟨impossible, -⟩ | ⟨-, -, staged, newPages⟩
  · cases impossible
  have valid₁ := staged.wellFormed
  have entered : view machine₁.memory root base =
      some (requested machine.pmm.allocPage.1 stackFlags) := by
    rw [view_eq_pageMap valid₁ here, newPages, Function.update_self]
  obtain ⟨pt, below⟩ := exists_table_of_user valid₁ entered rfl
  have directory : (tableAt machine₁.memory root
      [pml4Index (base + pageSize), pdptIndex (base + pageSize)]).isSome := by
    rw [upper.1, upper.2]
    obtain ⟨pd, above⟩ := @prefix_reached _ _ _ [pml4Index base, pdptIndex base]
      [pdIndex base] below
    rw [above]
    rfl
  have few : missingTables machine₁.memory root (base + pageSize) ≤ second := by
    rw [secondEq]
    split
    · next samePd =>
      have samePath : tablePath (base + pageSize) = tablePath base := by
        rw [tablePath, tablePath, upper.1, upper.2, samePd]
      rw [missingTables, samePath, below]
      rfl
    · apply Nat.le_min.mpr
      refine ⟨?_, missingTables_mono reached⟩
      simp only [missingTables, directory, if_true]
      split <;> omega
  obtain ⟨machine₂, last, -⟩ := @mapFreshPage_succeeds machine₁ root 0 valid₁ nonzero
    (base + pageSize) (left.mono (by omega)) stackFlags
  exact ⟨machine₂, by simp only [mapStackPages, first, last]⟩

end Window

end Charis.Exec
