import Charis.Memory.AddressSpaceMapping

/-!
# Creating address spaces

`vmm_create_address_space` followed by `vmm_copy_kernel_mappings` gives a new
well-formed tree whose translations are those of the source below its first PML4
entry and in the upper half.  The copy links its new PDPT last; the proof looks
at the tree as it will be once that link is stored, so that copying a table is
spelling out a slot that already means the same.
-/

namespace Charis.Memory

open Charis.Lib
open Charis.Lib.RadixTree
open Entry

theorem readEntry_copyEntries {memory : ByteMemory} {target source : Nat}
    (targetAligned : target % 4096 = 0) (sourceAligned : source % 4096 = 0)
    (apart : source ≠ target) (slots : List (Fin 512)) (index : Fin 512) :
    readEntry (copyEntries memory target source slots) target index =
      if index ∈ slots then readEntry memory source index
      else readEntry memory target index := by
  induction slots generalizing memory with
  | nil => rfl
  | cons slot slots ih =>
  rw [copyEntries, List.foldl_cons]
  refine ih.trans ?_
  have sourceKept : readEntry (writeEntry memory target slot
      (readEntry memory source slot)) source index = readEntry memory source index :=
    readEntry_writeEntry_of_ne targetAligned sourceAligned (by simp [apart])
  by_cases later : index ∈ slots
  · simp [later, sourceKept]
  · by_cases here : index = slot
    · subst here
      rw [if_neg later, if_pos List.mem_cons_self]
      exact readEntry_writeEntry_self
    · rw [if_neg later, if_neg (by simp [here, later])]
      exact readEntry_writeEntry_of_ne targetAligned targetAligned (by simp [here])

theorem agreeOn_copyEntries {memory : ByteMemory} {target source low high : Nat}
    {slots : List (Fin 512)} (apart : high ≤ target ∨ target + 4096 ≤ low) :
    ByteMemory.AgreeOn (copyEntries memory target source slots) memory low high := by
  induction slots generalizing memory with
  | nil => exact ByteMemory.AgreeOn.refl _ _ _
  | cons slot slots ih => exact ih.trans (agreeOn_writeEntry apart)

section Share

variable {machine machine' : Machine} {source target : Nat} {keep : Fin 512 → Bool}
  (valid : WellFormed machine source)
  (kept : ∀ path table, path.length ≤ 3 →
    tableAt machine.memory source path = some table →
    ByteMemory.AgreeOn machine'.memory machine.memory table (table + 4096) ∧
      ¬ machine'.pmm.Available table)
  (entries : ∀ index, readEntry machine'.memory target index =
    if keep index then readEntry machine.memory source index else 0#64)

include kept in
theorem readEntry_kept {path : List (Fin 512)} {table : Nat} (short : path.length ≤ 3)
    (reached : tableAt machine.memory source path = some table) (index : Fin 512) :
    readEntry machine'.memory table index = readEntry machine.memory table index :=
  readEntry_congr (kept path table short reached).1

include kept entries

/-- A root whose kept entries are those of another root reaches the tables of
that root. -/
theorem tableAt_share (index : Fin 512) (path : List (Fin 512)) (short : path.length ≤ 2) :
    tableAt machine'.memory target (index :: path) =
      if keep index then tableAt machine.memory source (index :: path) else none := by
  simp only [tableAt, descend]
  cases shared : keep index with
  | false =>
      have empty := entries index
      simp only [shared, Bool.false_eq_true, ↓reduceIte] at empty
      rw [child_eq_none_of_not_present (by rw [empty]; rfl)]
      rfl
  | true =>
  have same := entries index
  simp only [shared, ↓reduceIte] at same ⊢
  rw [child_congr same]
  cases link : child machine.memory source index with
  | none => simp only [Option.bind_none]
  | some next =>
  simp only [Option.bind_some]
  have agree : ∀ query node, query.length < 2 →
      descend (child machine.memory) next query = some node → ∀ slot,
      child machine'.memory node slot = child machine.memory node slot := by
    intro query node queryShort reached slot
    have here : tableAt machine.memory source (index :: query) = some node := by
      simp only [tableAt, descend, link, Option.bind_some]
      exact reached
    exact child_congr (readEntry_kept kept (by simp; omega) here slot)
  exact descend_congr agree path short

/-- A position of the sharing tree is its root or a position of the shared
tree. -/
theorem share_cases {path : List (Fin 512)} {table : Nat} (short : path.length ≤ 3)
    (reached : tableAt machine'.memory target path = some table) :
    (path = [] ∧ table = target) ∨
      (path ≠ [] ∧ tableAt machine.memory source path = some table) := by
  cases path with
  | nil =>
      cases reached
      exact .inl ⟨rfl, rfl⟩
  | cons index path =>
      simp only [List.length_cons] at short
      rw [tableAt_share kept entries index path (by omega)] at reached
      split at reached
      · exact .inr ⟨by simp, reached⟩
      · cases reached

/-- A property of the entries at a depth of the shared tree holds at the same
depth of the sharing tree, if empty entries have it. -/
theorem entry_of_share (property : Nat → Entry → Prop) (empty : property 0 0#64)
    (holds : ∀ path table index, path.length ≤ 3 →
      tableAt machine.memory source path = some table →
      property path.length (readEntry machine.memory table index))
    {path : List (Fin 512)} {table : Nat} (short : path.length ≤ 3)
    (reached : tableAt machine'.memory target path = some table) (index : Fin 512) :
    property path.length (readEntry machine'.memory table index) := by
  rcases share_cases kept entries short reached with ⟨rfl, rfl⟩ | ⟨-, old⟩
  · rw [entries index]
    split
    · exact holds [] source index short rfl
    · exact empty
  · rw [readEntry_kept kept short old]
    exact holds path table index short old

include valid

theorem WellFormed.share (aligned : target % 4096 = 0)
    (unavailable : ¬ machine'.pmm.Available target)
    (apart : ∀ path, path.length ≤ 3 →
      tableAt machine.memory source path ≠ some target) :
    WellFormed machine' target where
  root_aligned := aligned
  unshared := by
    intro first second node firstShort secondShort firstReached secondReached
    rcases share_cases kept entries firstShort firstReached with
      ⟨rfl, rfl⟩ | ⟨-, oldFirst⟩ <;>
    rcases share_cases kept entries secondShort secondReached with
      ⟨rfl, same⟩ | ⟨-, oldSecond⟩
    · rfl
    · exact absurd oldSecond (apart second secondShort)
    · cases same
      exact absurd oldFirst (apart first firstShort)
    · exact valid.unshared first second node firstShort secondShort oldFirst oldSecond
  owned := by
    intro path table short reached
    rcases share_cases kept entries short reached with ⟨rfl, rfl⟩ | ⟨-, old⟩
    · exact unavailable
    · exact (kept path table short old).2
  upper := by
    intro path table index short reached used
    exact entry_of_share kept entries
      (fun depth entry => depth ≤ 2 → present entry = true →
        writable entry = true ∧ HighClear entry)
      (fun _ impossible => by cases impossible)
      (fun path table index _ reached short => valid.upper path table index short reached)
      (by omega) reached index short used
  no_gigabyte := by
    intro path table index short reached used
    exact entry_of_share kept entries
      (fun depth entry => depth ≤ 1 → present entry = true → huge entry = false)
      (fun _ impossible => by cases impossible)
      (fun path table index _ reached short =>
        valid.no_gigabyte path table index short reached)
      (by omega) reached index short used
  large_closed := by
    intro path table index short reached used large
    exact entry_of_share kept entries
      (fun depth entry => depth ≤ 2 → present entry = true → huge entry = true →
        user entry = false)
      (fun _ impossible => by cases impossible)
      (fun path table index _ reached short =>
        valid.large_closed path table index short reached)
      (by omega) reached index short used large
  user_open := by
    intro path table index short reached leaf access above slot below upperTable split here
    -- the leaf is a leaf of the source, whose links above are those of the target
    cases path with
    | nil =>
        cases above <;> cases split
    | cons first path =>
    rcases share_cases kept entries short reached with ⟨impossible, -⟩ | ⟨-, old⟩
    · cases impossible
    rw [readEntry_kept kept short old] at leaf access
    have opened := valid.user_open _ table index short old leaf access above slot below
    have aboveShort : above.length ≤ 3 := by
      have lengths := congrArg List.length split
      simp only [List.length_append, List.length_cons] at lengths short
      omega
    rcases share_cases kept entries aboveShort here with ⟨rfl, rfl⟩ | ⟨-, oldAbove⟩
    · have sourceOpen := opened source split rfl
      obtain ⟨rfl, rfl⟩ : first = slot ∧ path = below := by simpa using split
      have link := tableAt_share kept entries first path (Nat.le_of_succ_le_succ short)
      rw [reached] at link
      rw [entries first]
      split at link
      · next shared => rw [if_pos shared]; exact sourceOpen
      · cases link
    · rw [readEntry_kept kept aboveShort oldAbove]
      exact opened upperTable split oldAbove

omit valid in
theorem leafView_share (first second third last : Fin 512) :
    leafView machine'.memory target first second third last =
      if keep first then leafView machine.memory source first second third last
      else none := by
  have deepTable := tableAt_share kept entries first [second, third] (by simp)
  have middleTable := tableAt_share kept entries first [second] (by simp)
  simp only [leafView, deepTable, middleTable]
  cases keep first with
  | false => rfl
  | true =>
  simp only [↓reduceIte]
  cases deep : tableAt machine.memory source [first, second, third] with
  | some pt =>
      simp only
      rw [readEntry_kept kept (by simp) deep]
  | none =>
      cases middle : tableAt machine.memory source [first, second] with
      | none => rfl
      | some pd =>
          simp only
          rw [readEntry_kept kept (by simp) middle]

end Share

/-! ## The copy loops -/

/-- The state of the copy loops: the tree is well formed once its last link is
stored, it has the translations `shown`, and only pages of the allocator and the
new root have been written. -/
structure Copying (base : Machine) (target : Nat) (link : Entry)
    (shown : Fin 512 → Fin 512 → Fin 512 → Fin 512 → Option Translation)
    (machine : Machine) : Prop where
  valid : WellFormed (machine.setEntry target 0 link) target
  view_eq : ∀ first second third last,
    leafView (machine.setEntry target 0 link).memory target first second third last =
      shown first second third last
  outside : ∀ page, page % 4096 = 0 → ¬ base.pmm.Available page → page ≠ target →
    ByteMemory.AgreeOn machine.memory base.memory page (page + 4096)
  available : ∀ page, machine.pmm.Available page → base.pmm.Available page

/-- What copying the table in slot `index` of `parent` does to the rest. -/
structure Cloned (machine machine' : Machine) (target : Nat) (link : Entry)
    (path : List (Fin 512)) (index : Fin 512) (parent fresh : Nat) : Prop where
  reached : tableAt (machine'.setEntry target 0 link).memory target (path ++ [index]) =
    some fresh
  taken : machine.pmm.Available fresh
  content : ∀ slot, readEntry machine'.memory fresh slot =
    readEntry machine.memory (tableAddress (readEntry machine.memory parent index)) slot
  kept : ∀ table slot, table % 4096 = 0 → ¬ machine.pmm.Available table →
    (table, slot) ≠ (parent, index) →
    readEntry machine'.memory table slot = readEntry machine.memory table slot
  paths : ∀ query table, query.length ≤ 3 → query ≠ path ++ [index] →
    tableAt (machine.setEntry target 0 link).memory target query = some table →
    tableAt (machine'.setEntry target 0 link).memory target query = some table
  mono : ∀ page, machine'.pmm.Available page → machine.pmm.Available page

namespace Copying

variable {base machine : Machine} {target parent : Nat} {link : Entry}
  {shown : Fin 512 → Fin 512 → Fin 512 → Fin 512 → Option Translation}
  {path : List (Fin 512)} {index : Fin 512}
  (copying : Copying base target link shown machine)

include copying

/-- Below the root the pending link makes no difference. -/
theorem readEntry_linked {query : List (Fin 512)} {table : Nat} {slot : Fin 512}
    (short : query.length ≤ 3) (nonempty : query ≠ [])
    (reached : tableAt (machine.setEntry target 0 link).memory target query = some table) :
    table ≠ target ∧
      readEntry (machine.setEntry target 0 link).memory table slot =
        readEntry machine.memory table slot := by
  have apart : table ≠ target := by
    rintro rfl
    exact nonempty (copying.valid.path_eq short (Nat.zero_le 3) reached rfl)
  refine ⟨apart, readEntry_writeEntry_of_ne copying.valid.root_aligned
    (copying.valid.table_aligned short reached) ?_⟩
  intro same
  exact apart (congrArg Prod.fst same)

variable (nonempty : path ≠ []) (short : path.length ≤ 2)
  (reached : tableAt (machine.setEntry target 0 link).memory target path = some parent)
  (used : present (readEntry machine.memory parent index) = true)
  (small : huge (readEntry machine.memory parent index) = false)

include nonempty short reached used small

/-- Copying a table spells out the slot that linked the original. -/
theorem spelled_clone {phys : Nat} {pmm : Pmm}
    (taken : Pmm.Takes machine.pmm pmm phys) :
    Spelled (machine.setEntry target 0 link)
      (Machine.setEntry
        { machine with
          memory := writeEntry
            (copyEntries machine.memory phys
              (tableAddress (readEntry machine.memory parent index)) (List.finRange 512))
            parent index (copyLink phys (readEntry machine.memory parent index)), pmm }
        target 0 link)
      target path index parent phys
      (copyLink phys (readEntry machine.memory parent index)) := by
  have valid := copying.valid
  have aligned := taken.1.aligned
  have low : phys < 2 ^ 52 := taken.1.lt.trans (by norm_num)
  have targetAligned := valid.root_aligned
  have parentAligned := valid.table_aligned (by omega) reached
  have owned (query : List (Fin 512)) {table : Nat} (queryShort : query.length ≤ 3)
      (here : tableAt (machine.setEntry target 0 link).memory target query = some table) :
      table ≠ phys := by
    rintro rfl
    exact valid.owned query _ queryShort here taken.1
  have parentFresh := owned path (by omega) reached
  have targetFresh : target ≠ phys := owned [] (Nat.zero_le 3) rfl
  obtain ⟨parentTarget, sameEntry⟩ :=
    @readEntry_linked _ _ _ _ _ copying _ _ index (by omega) nonempty reached
  -- the original table, one level down
  have oldReached : tableAt (machine.setEntry target 0 link).memory target
      (path ++ [index]) = some (tableAddress (readEntry machine.memory parent index)) := by
    rw [tableAt_snoc reached, child_eq_some_iff, sameEntry]
    exact ⟨used, small, rfl⟩
  have deeper : (path ++ [index]).length ≤ 3 := by
    simp only [List.length_append, List.length_singleton]
    omega
  have oldAligned := valid.table_aligned deeper oldReached
  have oldFresh := owned _ deeper oldReached
  obtain ⟨write, clear⟩ := valid.upper path parent index short reached
    (by rw [sameEntry]; exact used)
  rw [sameEntry] at write clear
  have flags := @sameFlags_copyLink phys (readEntry machine.memory parent index) aligned low
  exact {
    short := short
    reached := reached
    taken := taken
    linked := by
      refine (readEntry_writeEntry_of_ne targetAligned parentAligned ?_).trans
        readEntry_writeEntry_self
      intro same
      exact parentTarget (congrArg Prod.fst same)
    content := by
      intro slot
      rw [sameEntry, entryBelow, if_pos used, small, if_neg Bool.false_ne_true,
        (copying.readEntry_linked deeper (by simp) oldReached).2]
      refine (readEntry_writeEntry_of_ne targetAligned aligned ?_).trans ?_
      · intro same
        exact targetFresh (congrArg Prod.fst same).symm
      refine (readEntry_writeEntry_of_ne parentAligned aligned ?_).trans ?_
      · intro same
        exact parentFresh (congrArg Prod.fst same).symm
      rw [readEntry_copyEntries aligned oldAligned oldFresh,
        if_pos (List.mem_finRange slot)]
    kept := by
      intro table slot tableAligned notFresh elsewhere
      by_cases pending : (table, slot) = (target, 0)
      · cases pending
        exact readEntry_writeEntry_self.trans readEntry_writeEntry_self.symm
      · refine (readEntry_writeEntry_of_ne targetAligned tableAligned pending).trans ?_
        refine Eq.trans ?_
          (readEntry_writeEntry_of_ne targetAligned tableAligned pending).symm
        refine (readEntry_writeEntry_of_ne parentAligned tableAligned elsewhere).trans ?_
        exact readEntry_congr (agreeOn_copyEntries (by omega))
    outside := by
      intro page pageAligned notFresh notParent
      by_cases isTarget : page = target
      · subst isTarget
        intro address above below
        simp only [Machine.setEntry, writeEntry, ByteMemory.writeLE]
        split
        · rfl
        · exact (agreeOn_writeEntry (by omega)).trans (agreeOn_copyEntries (by omega))
            address above below
      · exact (agreeOn_writeEntry (by omega)).trans
          (((agreeOn_writeEntry (by omega)).trans (agreeOn_copyEntries (by omega))).trans
            (agreeOn_writeEntry (by omega)).symm)
    link_present := flags.present.trans used
    link_small := flags.huge.trans small
    link_writable := flags.writable.trans write
    link_high := highClear_copyLink aligned low clear
    link_frame := frame_copyLink aligned low
    link_user := by
      rw [sameEntry, used, Bool.true_and]
      exact flags.user }

/-- Copying one table keeps the state of the loops. -/
theorem clone (parentNew : base.pmm.Available parent) :
    (∃ machine', cloneTable machine parent index (readEntry machine.memory parent index) =
        (none, machine')) ∨
      ∃ fresh machine',
        cloneTable machine parent index (readEntry machine.memory parent index) =
          (some fresh, machine') ∧
        Copying base target link shown machine' ∧
        Cloned machine machine' target link path index parent fresh := by
  simp only [cloneTable]
  rcases machine.pmm.allocPage_cases with failed | taken
  · refine .inl ⟨machine, ?_⟩
    simp only [failed, ↓reduceIte]
  have step := copying.spelled_clone nonempty short reached used small taken
  have positions := step.tableAt_eq copying.valid
  have deeper : (path ++ [index]).length ≤ 3 := by
    simp only [List.length_append, List.length_singleton]
    omega
  have freshReached := (positions _ deeper).trans (if_pos rfl)
  have freshAligned := taken.1.aligned
  rw [if_neg taken.1.pos.ne']
  set fresh := machine.pmm.allocPage.1
  set machine' : Machine :=
    { machine with
      memory := writeEntry
        (copyEntries machine.memory fresh
          (tableAddress (readEntry machine.memory parent index)) (List.finRange 512))
        parent index (copyLink fresh (readEntry machine.memory parent index)),
      pmm := machine.pmm.allocPage.2 }
  have copying' : Copying base target link shown machine' := {
    valid := step.wellFormed copying.valid
    view_eq := fun a b c d =>
      (step.leafView_eq copying.valid a b c d).trans (copying.view_eq a b c d)
    outside := by
      intro page aligned unavailable notTarget
      have notParent : page ≠ parent := by
        rintro rfl
        exact unavailable parentNew
      have notFresh : page ≠ fresh := by
        rintro rfl
        exact unavailable (copying.available _ taken.1)
      have parentAligned := parentNew.aligned
      refine ByteMemory.AgreeOn.trans ?_ (copying.outside page aligned unavailable notTarget)
      exact (agreeOn_writeEntry (by omega)).trans (agreeOn_copyEntries (by omega))
    available := fun page free => copying.available page ((step.taken.2 page).mp free).1 }
  refine .inr ⟨fresh, machine', rfl, copying', ?_⟩
  exact {
    reached := freshReached
    taken := taken.1
    content := by
      intro slot
      have sameEntry :=
        (@readEntry_linked _ _ _ _ _ copying _ _ index (by omega) nonempty reached).2
      have oldReached : tableAt (machine.setEntry target 0 link).memory target
          (path ++ [index]) =
            some (tableAddress (readEntry machine.memory parent index)) := by
        rw [tableAt_snoc reached, child_eq_some_iff, sameEntry]
        exact ⟨used, small, rfl⟩
      rw [← (copying'.readEntry_linked deeper (by simp) freshReached).2,
        step.content_of_reached slot oldReached]
      exact (copying.readEntry_linked deeper (by simp) oldReached).2
    kept := by
      intro table slot aligned unavailable elsewhere
      have notFresh : table ≠ fresh := by
        rintro rfl
        exact unavailable taken.1
      refine (readEntry_writeEntry_of_ne parentNew.aligned aligned elsewhere).trans ?_
      exact readEntry_congr (agreeOn_copyEntries (by omega))
    paths := fun query table queryShort elsewhere here =>
      ((positions query queryShort).trans (if_neg elsewhere)).trans here
    mono := fun page free => ((step.taken.2 page).mp free).1 }

end Copying

theorem forSlots_invariant {body : Machine → Fin 512 → Bool × Machine}
    (invariant : List (Fin 512) → Machine → Prop)
    (step : ∀ index rest machine machine', invariant (index :: rest) machine →
      body machine index = (true, machine') → invariant rest machine')
    {slots : List (Fin 512)} {machine machine' : Machine}
    (start : invariant slots machine)
    (done : forSlots body machine slots = (true, machine')) : invariant [] machine' := by
  induction slots generalizing machine with
  | nil =>
      cases done
      exact start
  | cons index slots ih =>
  simp only [forSlots] at done
  rcases next : body machine index with ⟨ok, machine1⟩
  rw [next] at done
  cases ok with
  | false => cases done
  | true => exact ih (step index slots machine machine1 start next) done

namespace Copying

variable {base : Machine} {source target : Nat} {link : Entry}
  {shown : Fin 512 → Fin 512 → Fin 512 → Fin 512 → Option Translation}

theorem readEntry_source {machine : Machine}
    (copying : Copying base target link shown machine) (valid : WellFormed base source)
    (apart : ∀ path, path.length ≤ 3 → tableAt base.memory source path ≠ some target)
    {path : List (Fin 512)} {table : Nat} (short : path.length ≤ 3)
    (reached : tableAt base.memory source path = some table) (slot : Fin 512) :
    readEntry machine.memory table slot = readEntry base.memory table slot := by
  apply readEntry_congr
  apply copying.outside table (valid.table_aligned short reached)
    (valid.owned path table short reached)
  rintro rfl
  exact apart path short reached

/-- Invariant of the loop over the slots of one page directory, which started in
`start`: the slots still to do are as in the original. -/
structure DirectoryLoop (base : Machine) (target : Nat) (link : Entry)
    (shown : Fin 512 → Fin 512 → Fin 512 → Fin 512 → Option Translation)
    (path : List (Fin 512)) (sourcePd pd : Nat) (start : Machine)
    (rest : List (Fin 512)) (machine : Machine) : Prop where
  copying : Copying base target link shown machine
  reached : tableAt (machine.setEntry target 0 link).memory target path = some pd
  pending : ∀ index ∈ rest,
    readEntry machine.memory pd index = readEntry base.memory sourcePd index
  distinct : rest.Nodup
  paths : ∀ query table, query.length ≤ 2 →
    tableAt (start.setEntry target 0 link).memory target query = some table →
    tableAt (machine.setEntry target 0 link).memory target query = some table
  kept : ∀ table slot, table % 4096 = 0 → ¬ start.pmm.Available table → table ≠ pd →
    readEntry machine.memory table slot = readEntry start.memory table slot
  mono : ∀ page, machine.pmm.Available page → start.pmm.Available page

theorem DirectoryLoop.step {path : List (Fin 512)} {sourcePd pd : Nat} {start : Machine}
    (directory : path.length = 2) (pdNew : base.pmm.Available pd)
    (original : ∀ machine, Copying base target link shown machine → ∀ slot,
      readEntry machine.memory sourcePd slot = readEntry base.memory sourcePd slot)
    (index : Fin 512) (rest : List (Fin 512)) (machine machine' : Machine)
    (loop : DirectoryLoop base target link shown path sourcePd pd start (index :: rest)
      machine)
    (done : clonePageTable sourcePd pd machine index = (true, machine')) :
    DirectoryLoop base target link shown path sourcePd pd start rest machine' := by
  have copying := loop.copying
  have nonempty : path ≠ [] := by
    rintro rfl
    cases directory
  have sameEntry : readEntry machine.memory sourcePd index =
      readEntry machine.memory pd index :=
    (original machine copying index).trans (loop.pending index List.mem_cons_self).symm
  obtain ⟨notLater, distinct⟩ := List.nodup_cons.mp loop.distinct
  have pending := fun slot member => loop.pending slot (List.mem_cons_of_mem index member)
  simp only [clonePageTable, sameEntry] at done
  split at done
  · cases done
    exact { loop with pending, distinct }
  next linked =>
  simp only [Bool.or_eq_true, Bool.not_eq_eq_eq_not, Bool.not_true, not_or,
    Bool.not_eq_false, Bool.not_eq_true] at linked
  obtain ⟨used, small⟩ := linked
  rcases copying.clone nonempty directory.le loop.reached used small pdNew with
    ⟨failed, cloned⟩ | ⟨pt, next, cloned, copying', effect⟩
  · rw [cloned] at done
    cases done
  rw [cloned] at done
  cases done
  have longer (query : List (Fin 512)) (short : query.length ≤ 2) :
      query ≠ path ++ [index] := by
    rintro rfl
    simp [directory] at short
  have pdUsed : ¬ machine.pmm.Available pd := by
    have owned := copying.valid.owned path pd (by omega) loop.reached
    exact owned
  exact {
    copying := copying'
    reached := effect.paths path pd (by omega) (longer path directory.le) loop.reached
    pending := by
      intro slot member
      rw [effect.kept pd slot pdNew.aligned pdUsed]
      · exact pending slot member
      · intro same
        cases same
        exact notLater member
    distinct := distinct
    paths := fun query table short here =>
      effect.paths query table (by omega) (longer query short)
        (loop.paths query table short here)
    kept := by
      intro table slot aligned unavailable notPd
      rw [effect.kept table slot aligned
        (fun free => unavailable (loop.mono table free)) (by simp [notPd])]
      exact loop.kept table slot aligned unavailable notPd
    mono := fun page free => loop.mono page (effect.mono page free) }

/-- Invariant of the loop over the slots of the PDPT. -/
structure PdptLoop (base : Machine) (target : Nat) (link : Entry)
    (shown : Fin 512 → Fin 512 → Fin 512 → Fin 512 → Option Translation)
    (sourcePdpt pdpt : Nat) (rest : List (Fin 512)) (machine : Machine) : Prop where
  copying : Copying base target link shown machine
  reached : tableAt (machine.setEntry target 0 link).memory target [0] = some pdpt
  pending : ∀ index ∈ rest,
    readEntry machine.memory pdpt index = readEntry base.memory sourcePdpt index
  distinct : rest.Nodup

theorem PdptLoop.step {sourcePdpt pdpt : Nat} (valid : WellFormed base source)
    (apart : ∀ path, path.length ≤ 3 → tableAt base.memory source path ≠ some target)
    (sourceReached : tableAt base.memory source [0] = some sourcePdpt)
    (pdptNew : base.pmm.Available pdpt)
    (index : Fin 512) (rest : List (Fin 512)) (machine machine' : Machine)
    (loop : PdptLoop base target link shown sourcePdpt pdpt (index :: rest) machine)
    (done : clonePageDirectory sourcePdpt pdpt machine index = (true, machine')) :
    PdptLoop base target link shown sourcePdpt pdpt rest machine' := by
  have copying := loop.copying
  have sameEntry : readEntry machine.memory sourcePdpt index =
      readEntry machine.memory pdpt index :=
    (copying.readEntry_source valid apart (by simp) sourceReached index).trans
      (loop.pending index List.mem_cons_self).symm
  obtain ⟨notLater, distinct⟩ := List.nodup_cons.mp loop.distinct
  have pending := fun slot member => loop.pending slot (List.mem_cons_of_mem index member)
  simp only [clonePageDirectory, sameEntry] at done
  split at done
  · cases done
    exact { loop with pending, distinct }
  next linked =>
  simp only [Bool.or_eq_true, Bool.not_eq_eq_eq_not, Bool.not_true, not_or,
    Bool.not_eq_false, Bool.not_eq_true] at linked
  obtain ⟨used, small⟩ := linked
  rcases copying.clone (by simp) (by simp) loop.reached used small pdptNew with
    ⟨failed, cloned⟩ | ⟨pd, start, cloned, copying', effect⟩
  · rw [cloned] at done
    cases done
  rw [cloned] at done
  have pdptUsed : ¬ machine.pmm.Available pdpt :=
    copying.valid.owned [0] pdpt (by simp) loop.reached
  have pdNew : base.pmm.Available pd := copying.available pd effect.taken
  have pdptPd : pdpt ≠ pd := by
    rintro rfl
    exact pdptUsed effect.taken
  -- the directory that was copied is a table of the source
  set sourcePd := tableAddress (readEntry machine.memory pdpt index)
  have sourcePdReached : tableAt base.memory source [0, index] = some sourcePd := by
    have here := tableAt_snoc sourceReached index
    simp only [List.cons_append, List.nil_append] at here
    rw [here, child_eq_some_iff, ← loop.pending index List.mem_cons_self]
    exact ⟨used, small, rfl⟩
  have original (middle : Machine)
      (state : Copying base target link shown middle) (slot : Fin 512) :
      readEntry middle.memory sourcePd slot = readEntry base.memory sourcePd slot :=
    state.readEntry_source valid apart (by simp) sourcePdReached slot
  have begin : DirectoryLoop base target link shown [0, index] sourcePd pd start
      (List.finRange 512) start := {
    copying := copying'
    reached := effect.reached
    pending := fun slot _ => (effect.content slot).trans (original machine copying slot)
    distinct := List.nodup_finRange 512
    paths := fun _ _ _ here => here
    kept := fun _ _ _ _ _ => rfl
    mono := fun _ free => free }
  have finish := forSlots_invariant _
    (DirectoryLoop.step rfl pdNew original) begin done
  have pdptKept (slot : Fin 512) (elsewhere : slot ≠ index) :
      readEntry machine'.memory pdpt slot = readEntry machine.memory pdpt slot := by
    rw [finish.kept pdpt slot pdptNew.aligned
      (fun free => pdptUsed (effect.mono pdpt free)) pdptPd]
    exact effect.kept pdpt slot pdptNew.aligned pdptUsed (by simp [elsewhere])
  exact {
    copying := finish.copying
    reached := finish.paths [0] pdpt (by simp)
      (effect.paths [0] pdpt (by simp) (by simp) loop.reached)
    pending := by
      intro slot member
      rw [pdptKept slot (by rintro rfl; exact notLater member)]
      exact pending slot member
    distinct := distinct }

end Copying

/-! ## The new address space -/

/-- What an address space shares with its source: everything below the first PML4
entry and the upper half. -/
def inherited (index : Fin 512) : Bool := decide (index = 0 ∨ 256 ≤ index.val)

/-- The result of `vmm_copy_kernel_mappings`. -/
structure Inherits (machine machine' : Machine) (target source : Nat) : Prop where
  wellFormed : WellFormed machine' target
  view_eq : ∀ first second third last,
    leafView machine'.memory target first second third last =
      if inherited first then leafView machine.memory source first second third last
      else none
  outside : ∀ page, page % 4096 = 0 → ¬ machine.pmm.Available page → page ≠ target →
    ByteMemory.AgreeOn machine'.memory machine.memory page (page + 4096)
  available : ∀ page, machine'.pmm.Available page → machine.pmm.Available page

section Create

variable {machine : Machine} {source target : Nat} (valid : WellFormed machine source)
  (aligned : target % 4096 = 0) (unavailable : ¬ machine.pmm.Available target)
  (apart : ∀ path, path.length ≤ 3 → tableAt machine.memory source path ≠ some target)

include apart in
theorem source_ne_target : source ≠ target := by
  rintro rfl
  exact apart [] (Nat.zero_le 3) rfl

section Shared

/-! Physical memory once the upper half is shared: only the new root has been
written. -/

variable {shared : ByteMemory}
  (outside : ∀ page, page % 4096 = 0 → page ≠ target →
    ByteMemory.AgreeOn shared machine.memory page (page + 4096))
  (entries : ∀ index, readEntry shared target index =
    if 256 ≤ index.val then readEntry machine.memory source index else 0#64)

include valid apart outside in
theorem agreeOn_shared {path : List (Fin 512)} {table : Nat} (short : path.length ≤ 3)
    (reached : tableAt machine.memory source path = some table) :
    ByteMemory.AgreeOn shared machine.memory table (table + 4096) := by
  apply outside table (valid.table_aligned short reached)
  rintro rfl
  exact apart path short reached

include valid aligned unavailable apart outside entries

/-- A source without low mappings. -/
theorem inherits_upper
    (absent : present (readEntry machine.memory source 0) = false) :
    Inherits machine { machine with memory := shared }
      target source := by
  have kept : ∀ path table, path.length ≤ 3 →
      tableAt machine.memory source path = some table →
      ByteMemory.AgreeOn shared machine.memory table
        (table + 4096) ∧ ¬ machine.pmm.Available table :=
    fun path table short reached =>
      ⟨agreeOn_shared valid apart outside short reached,
        valid.owned path table short reached⟩
  have rootEntries : ∀ index, readEntry shared target index =
      if decide (256 ≤ index.val) then readEntry machine.memory source index else 0#64 := by
    intro index
    simpa only [decide_eq_true_eq] using entries index
  have new := @WellFormed.share machine
    { machine with memory := shared } source target
    (fun index => decide (256 ≤ index.val)) valid kept rootEntries aligned unavailable apart
  have views := @leafView_share machine
    { machine with memory := shared } source target
    (fun index => decide (256 ≤ index.val)) kept rootEntries
  exact {
    wellFormed := new
    view_eq := by
      intro first second third last
      rw [views first second third last]
      by_cases zero : first = 0
      · subst zero
        have gone : child machine.memory source 0 = none :=
          child_eq_none_of_not_present absent
        simp [leafView, tableAt, descend, gone]
      · simp [inherited, zero]
    outside := fun page pageAligned _ different => outside page pageAligned different
    available := fun _ free => free }

theorem shared_low :
    WellFormed
        { machine with
          memory := writeEntry shared target 0
            (readEntry machine.memory source 0) } target ∧
      ∀ first second third last,
        leafView
            (writeEntry shared target 0
              (readEntry machine.memory source 0)) target first second third last =
          if inherited first then leafView machine.memory source first second third last
          else none := by
  have kept : ∀ path table, path.length ≤ 3 →
      tableAt machine.memory source path = some table →
      ByteMemory.AgreeOn (writeEntry shared target 0 (readEntry machine.memory source 0))
          machine.memory table (table + 4096) ∧
        ¬ machine.pmm.Available table := by
    intro path table short reached
    have tableAligned := valid.table_aligned short reached
    have different : table ≠ target := by
      rintro rfl
      exact apart path short reached
    exact ⟨(agreeOn_writeEntry (by omega)).trans
      (agreeOn_shared valid apart outside short reached),
      valid.owned path table short reached⟩
  have rootEntries : ∀ index, readEntry
      (writeEntry shared target 0 (readEntry machine.memory source 0)) target index =
      if inherited index then readEntry machine.memory source index else 0#64 := by
    intro index
    by_cases zero : index = 0
    · rw [zero, readEntry_writeEntry_self, if_pos (by decide)]
    · rw [readEntry_writeEntry_of_ne aligned aligned (by simp [zero]), entries]
      simp [inherited, zero]
  exact ⟨@WellFormed.share machine
    { machine with memory := writeEntry shared target 0 (readEntry machine.memory source 0) }
    source target inherited valid kept rootEntries aligned unavailable apart,
    @leafView_share machine
      { machine with
        memory := writeEntry shared target 0 (readEntry machine.memory source 0) }
      source target inherited kept rootEntries⟩

omit outside entries in
theorem spelled_pdpt {phys : Nat} {pmm : Pmm} (taken : Pmm.Takes machine.pmm pmm phys)
    (used : present (readEntry machine.memory source 0) = true) :
    Spelled
      { machine with
        memory := writeEntry shared target 0
          (readEntry machine.memory source 0) }
      (Machine.setEntry
        { machine with
          memory := copyEntries shared phys
            (tableAddress (readEntry machine.memory source 0)) (List.finRange 512), pmm }
        target 0 (copyLink phys (readEntry machine.memory source 0)))
      target [] 0 target phys (copyLink phys (readEntry machine.memory source 0)) := by
  have freshAligned := taken.1.aligned
  have low : phys < 2 ^ 52 := taken.1.lt.trans (by norm_num)
  have rootReached : tableAt machine.memory source [] = some source := rfl
  have small := valid.no_gigabyte [] source 0 (by simp) rootReached used
  obtain ⟨write, clear⟩ := valid.upper [] source 0 (by simp) rootReached used
  have oldReached : tableAt machine.memory source [0] =
      some (tableAddress (readEntry machine.memory source 0)) :=
    (tableAt_snoc rootReached 0).trans (child_eq_some_iff.mpr ⟨used, small, rfl⟩)
  have oldAligned := valid.table_aligned (by simp) oldReached
  have oldTarget : tableAddress (readEntry machine.memory source 0) ≠ target := by
    intro same
    exact apart [0] (by simp) (by rw [oldReached, same])
  have oldFresh : tableAddress (readEntry machine.memory source 0) ≠ phys := by
    intro same
    exact valid.owned [0] phys (by simp) (by rw [oldReached, same]) taken.1
  have targetFresh : target ≠ phys := by
    rintro rfl
    exact unavailable taken.1
  have flags := @sameFlags_copyLink phys (readEntry machine.memory source 0)
    freshAligned low
  exact {
    short := Nat.zero_le 2
    reached := rfl
    taken := taken
    linked := readEntry_writeEntry_self
    content := by
      intro slot
      have entry : readEntry (writeEntry shared target 0
          (readEntry machine.memory source 0)) target 0 =
          readEntry machine.memory source 0 := readEntry_writeEntry_self
      rw [entry, entryBelow, if_pos used, small, if_neg Bool.false_ne_true,
        readEntry_writeEntry_of_ne aligned oldAligned (by simp [oldTarget])]
      refine (readEntry_writeEntry_of_ne aligned freshAligned
        (by simp [targetFresh.symm])).trans ?_
      rw [readEntry_copyEntries freshAligned oldAligned oldFresh,
        if_pos (List.mem_finRange slot)]
    kept := by
      intro table slot tableAligned notFresh elsewhere
      refine (readEntry_writeEntry_of_ne aligned tableAligned elsewhere).trans ?_
      refine Eq.trans ?_ (readEntry_writeEntry_of_ne aligned tableAligned elsewhere).symm
      dsimp only
      exact readEntry_congr (agreeOn_copyEntries (by omega))
    outside := by
      intro page pageAligned notFresh notTarget
      refine (agreeOn_writeEntry (by omega)).trans ?_
      dsimp only
      exact (agreeOn_copyEntries (by omega)).trans (agreeOn_writeEntry (by omega)).symm
    link_present := flags.present.trans used
    link_small := flags.huge.trans small
    link_writable := flags.writable.trans write
    link_high := highClear_copyLink freshAligned low clear
    link_frame := frame_copyLink freshAligned low
    link_user := by
      have entry : readEntry (writeEntry shared target 0
          (readEntry machine.memory source 0)) target 0 =
          readEntry machine.memory source 0 := readEntry_writeEntry_self
      rw [entry, used, Bool.true_and]
      exact flags.user }

/-- The loops start with a copy of the PDPT that still shares its directories. -/
theorem pdptLoop_start {phys : Nat} {pmm : Pmm} (taken : Pmm.Takes machine.pmm pmm phys)
    (used : present (readEntry machine.memory source 0) = true)
    (reached : tableAt machine.memory source [0] =
      some (tableAddress (readEntry machine.memory source 0))) :
    Copying.PdptLoop machine target (copyLink phys (readEntry machine.memory source 0))
      (fun first second third last =>
        if inherited first then leafView machine.memory source first second third last
        else none)
      (tableAddress (readEntry machine.memory source 0)) phys (List.finRange 512)
      { machine with
        memory := copyEntries shared phys (tableAddress (readEntry machine.memory source 0))
          (List.finRange 512)
        pmm } := by
  obtain ⟨lowValid, lowView⟩ :=
    shared_low valid aligned unavailable apart outside entries
  have step := @spelled_pdpt _ _ _ valid aligned unavailable apart shared _ _ taken used
  have sourceAligned := valid.table_aligned (by simp) reached
  have sourceFresh : tableAddress (readEntry machine.memory source 0) ≠ phys := by
    intro same
    exact valid.owned [0] _ (by simp) reached (same ▸ taken.1)
  have freshAligned := taken.1.aligned
  exact {
    copying := {
      valid := step.wellFormed lowValid
      view_eq := fun first second third last =>
        (step.leafView_eq lowValid first second third last).trans
          (lowView first second third last)
      outside := by
        intro page pageAligned pageUsed different
        have notFresh : page ≠ phys := by
          rintro rfl
          exact pageUsed taken.1
        dsimp only
        exact (agreeOn_copyEntries (by omega)).trans (outside page pageAligned different)
      available := fun page free => ((taken.2 page).mp free).1 }
    reached := (step.tableAt_eq lowValid [0] (by simp)).trans (if_pos rfl)
    pending := by
      intro index _
      dsimp only
      rw [readEntry_copyEntries freshAligned sourceAligned sourceFresh,
        if_pos (List.mem_finRange index)]
      exact readEntry_congr (agreeOn_shared valid apart outside (by simp) reached)
    distinct := List.nodup_finRange 512 }

end Shared

/-- A successful `vmm_copy_kernel_mappings` gives the empty root `target` the
inherited translations of the source. -/
theorem copyKernelMappings_inherits {machine' : Machine} {given : Nat}
    (valid : WellFormed machine source) (aligned : target % 4096 = 0)
    (unavailable : ¬ machine.pmm.Available target)
    (apart : ∀ path, path.length ≤ 3 → tableAt machine.memory source path ≠ some target)
    (empty : ∀ index, readEntry machine.memory target index = 0#64)
    (given_eq : source = if given = 0 then machine.cr3 else given)
    (done : copyKernelMappings machine target given = (true, machine')) :
    Inherits machine machine' target source := by
  unfold copyKernelMappings at done
  split at done
  · cases done
  simp only [← given_eq] at done
  -- the upper half is shared first
  have outside : ∀ page, page % 4096 = 0 → page ≠ target →
      ByteMemory.AgreeOn
        (copyEntries machine.memory target source
          ((List.finRange 512).filter fun index => 256 ≤ index.val))
        machine.memory page (page + 4096) := by
    intro page pageAligned different
    exact agreeOn_copyEntries (by omega)
  have entries : ∀ index, readEntry
      (copyEntries machine.memory target source
        ((List.finRange 512).filter fun index => 256 ≤ index.val)) target index =
      if 256 ≤ index.val then readEntry machine.memory source index else 0#64 := by
    intro index
    rw [readEntry_copyEntries aligned valid.root_aligned (source_ne_target apart)]
    simp only [List.mem_filter, List.mem_finRange, true_and, decide_eq_true_eq, empty]
  generalize copyEntries machine.memory target source
    ((List.finRange 512).filter fun index => 256 ≤ index.val) = shared
    at done outside entries
  have rootReached : tableAt machine.memory source [] = some source := rfl
  have sameEntry : readEntry shared source 0 = readEntry machine.memory source 0 :=
    readEntry_congr (agreeOn_shared valid apart outside (by simp) rootReached)
  simp only [sameEntry] at done
  cases used : present (readEntry machine.memory source 0) with
  | false =>
      simp only [used, Bool.not_false, ↓reduceIte, Prod.mk.injEq, true_and] at done
      subst done
      exact inherits_upper valid aligned unavailable apart outside entries used
  | true =>
  simp only [used, Bool.not_true, Bool.false_eq_true, ↓reduceIte] at done
  rcases machine.pmm.allocPage_cases with failed | taken
  · rw [failed] at done
    cases done
  rw [if_neg taken.1.pos.ne'] at done
  have sourceReached : tableAt machine.memory source [0] =
      some (tableAddress (readEntry machine.memory source 0)) :=
    (tableAt_snoc rootReached 0).trans (child_eq_some_iff.mpr
      ⟨used, valid.no_gigabyte [] source 0 (by simp) rootReached used, rfl⟩)
  have begin := pdptLoop_start valid aligned unavailable apart outside entries taken used
    sourceReached
  set pdpt := machine.pmm.allocPage.1
  set sourcePdpt := tableAddress (readEntry machine.memory source 0)
  generalize copyEntries shared pdpt sourcePdpt (List.finRange 512) = start at done begin
  rcases loop : forSlots (clonePageDirectory sourcePdpt pdpt)
      { machine with memory := start, pmm := machine.pmm.allocPage.2 }
      (List.finRange 512) with ⟨ok, machineEnd⟩
  rw [loop] at done
  cases ok with
  | false => cases done
  | true =>
  cases done
  have finish := forSlots_invariant _
    (Copying.PdptLoop.step valid apart sourceReached taken.1) begin loop
  have copying := finish.copying
  exact {
    wellFormed := copying.valid
    view_eq := copying.view_eq
    outside := by
      intro page pageAligned pageUsed different
      exact (agreeOn_writeEntry (by omega)).trans
        (copying.outside page pageAligned pageUsed different)
    available := copying.available }

end Create

/-- The kernel's own tree as `boot.asm` sets it up and `vmm_map_page` extends it:
every entry above the page tables is present and writable without high bits, the
large pages are of 2 MiB, and nothing is open to user accesses. -/
structure KernelSpace (machine : Machine) (source : Nat) : Prop
    extends WellFormed machine source where
  closed : ∀ first second third last translation,
    leafView machine.memory source first second third last = some translation →
    translation.user = false

/-- The address space that `kernel_main` gives to a user task. -/
def newAddressSpace (machine : Machine) (source : Nat) : Option (Nat × Machine) :=
  match createAddressSpace machine with
  | (root, machine) =>
      if root = 0 then none
      else
        match copyKernelMappings machine root source with
        | (true, machine) => some (root, machine)
        | (false, _) => none

/-- The root that `vmm_copy_kernel_mappings` copies from. -/
def sourceRoot (machine : Machine) (source : Nat) : Nat :=
  if source = 0 then machine.cr3 else source

section New

variable {machine machine' : Machine} {source root : Nat}

/-- A new address space is well formed, inherits the translations of its source
and is written to pages of the allocator only. -/
theorem newAddressSpace_inherits
    (valid : WellFormed machine (sourceRoot machine source))
    (created : newAddressSpace machine source = some (root, machine')) :
    root ≠ 0 ∧ Inherits machine machine' root (sourceRoot machine source) := by
  simp only [newAddressSpace, createAddressSpace] at created
  rcases machine.pmm.allocPage_cases with failed | taken
  · simp [failed] at created
  have nonzero := taken.1.pos.ne'
  simp only [nonzero, ↓reduceIte] at created
  have aligned := taken.1.aligned
  set cleared : Machine :=
    { machine with
      memory := machine.memory.fill machine.pmm.allocPage.1 pageSize 0
      pmm := machine.pmm.allocPage.2 }
  rcases copied : copyKernelMappings cleared machine.pmm.allocPage.1 source with ⟨ok, final⟩
  rw [copied] at created
  cases ok with
  | false => cases created
  | true =>
  cases created
  have outside : ∀ page, page % 4096 = 0 → page ≠ machine.pmm.allocPage.1 →
      ByteMemory.AgreeOn cleared.memory machine.memory page (page + 4096) := by
    intro page pageAligned different
    exact ByteMemory.agreeOn_fill (by simp only [pageSize]; omega)
  -- the source is not touched by the new root
  have sourceKept : ∀ path table, path.length ≤ 3 →
      tableAt machine.memory (sourceRoot machine source) path = some table →
      ByteMemory.AgreeOn cleared.memory machine.memory table (table + 4096) := by
    intro path table short reached
    apply outside table (valid.table_aligned short reached)
    rintro rfl
    exact valid.owned path _ short reached taken.1
  have sourceValid : WellFormed cleared (sourceRoot machine source) :=
    valid.elsewhere sourceKept fun path table short reached free =>
      valid.owned path table short reached ((taken.2 table).mp free).1
  have inherits : Inherits cleared machine' machine.pmm.allocPage.1
      (sourceRoot machine source) := by
    refine copyKernelMappings_inherits sourceValid aligned ?_ ?_ ?_ rfl copied
    · exact fun free => ((taken.2 _).mp free).2 rfl
    · intro path short reached
      rw [tableAt_elsewhere sourceKept short] at reached
      exact valid.owned path _ short reached taken.1
    · exact fun index => readEntry_fill_zero
  refine ⟨nonzero, ?_⟩
  exact {
    wellFormed := inherits.wellFormed
    view_eq := by
      intro first second third last
      rw [inherits.view_eq, leafView_elsewhere sourceKept]
    outside := by
      intro page pageAligned used different
      have stillUsed : ¬ cleared.pmm.Available page :=
        fun free => used ((taken.2 page).mp free).1
      exact (inherits.outside page pageAligned stillUsed different).trans
        (outside page pageAligned different)
    available := fun page free => ((taken.2 page).mp (inherits.available page free)).1 }

end New

end Charis.Memory
