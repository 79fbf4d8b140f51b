import Charis.Memory.Vmm

/-!
# Well-formed address spaces

The invariant of the page-table trees that the kernel builds, and the three ways
in which it edits them: a slot receives a table that spells out what the slot
meant before, an upper entry is opened to user accesses, or the entry of a page
is replaced.  In a well-formed tree the processor's walk only depends on the
entry it ends with, so each edit says directly which translations it changes.
-/

namespace Charis.Memory

open Charis.Lib
open Charis.Lib.RadixTree
open Entry

/-- The table that a slot links, if it does. -/
def child (memory : ByteMemory) (table : Nat) (index : Fin 512) : Option Nat :=
  if present (readEntry memory table index) && !huge (readEntry memory table index) then
    some (tableAddress (readEntry memory table index))
  else
    none

/-- The table that a path of indices leads to. -/
def tableAt (memory : ByteMemory) (root : Nat) (path : List (Fin 512)) : Option Nat :=
  descend (child memory) root path

/-- An entry at depth `depth` ends a walk: it maps a 4 KiB page or a larger one. -/
def IsLeaf (depth : Nat) (entry : Entry) : Prop :=
  present entry = true ∧ (depth = 3 ∨ huge entry = true)

/-- The invariant of an address space. -/
structure WellFormed (machine : Machine) (root : Nat) : Prop where
  /-- The root is a page. -/
  root_aligned : root % 4096 = 0
  /-- No table is linked twice. -/
  unshared : Unshared 3 (child machine.memory) root
  /-- The allocator does not hand out a table of the tree. -/
  owned : ∀ path table, path.length ≤ 3 →
    tableAt machine.memory root path = some table → ¬ machine.pmm.Available table
  /-- Entries above the page tables are writable and have no high bits. -/
  upper : ∀ path table index, path.length ≤ 2 →
    tableAt machine.memory root path = some table →
    present (readEntry machine.memory table index) = true →
    writable (readEntry machine.memory table index) = true ∧
      HighClear (readEntry machine.memory table index)
  /-- Only page directories have large leaves. -/
  no_gigabyte : ∀ path table index, path.length ≤ 1 →
    tableAt machine.memory root path = some table →
    present (readEntry machine.memory table index) = true →
    huge (readEntry machine.memory table index) = false
  /-- Large leaves are closed to user accesses. -/
  large_closed : ∀ path table index, path.length ≤ 2 →
    tableAt machine.memory root path = some table →
    present (readEntry machine.memory table index) = true →
    huge (readEntry machine.memory table index) = true →
    user (readEntry machine.memory table index) = false
  /-- All entries above a leaf with the user bit have the user bit. -/
  user_open : ∀ path table index, path.length ≤ 3 →
    tableAt machine.memory root path = some table →
    IsLeaf path.length (readEntry machine.memory table index) →
    user (readEntry machine.memory table index) = true →
    ∀ above slot below upperTable, path = above ++ slot :: below →
      tableAt machine.memory root above = some upperTable →
      user (readEntry machine.memory upperTable slot) = true

section Child

variable {memory : ByteMemory} {table next : Nat} {index : Fin 512}

theorem child_eq_some_iff :
    child memory table index = some next ↔
      present (readEntry memory table index) = true ∧
        huge (readEntry memory table index) = false ∧
        tableAddress (readEntry memory table index) = next := by
  simp only [child]
  split
  · next link =>
      simp only [Bool.and_eq_true, Bool.not_eq_eq_eq_not, Bool.not_true] at link
      simp [link.1, link.2]
  · next unlinked =>
      simp only [Bool.and_eq_true, Bool.not_eq_eq_eq_not, Bool.not_true, not_and] at unlinked
      simp only [reduceCtorEq, false_iff, not_and]
      intro here small
      exact absurd small (unlinked here)

theorem child_eq_none_of_not_present
    (absent : present (readEntry memory table index) = false) :
    child memory table index = none := by
  simp [child, absent]

theorem child_eq_none_of_huge (large : huge (readEntry memory table index) = true) :
    child memory table index = none := by
  simp [child, large]

/-- What a slot links only depends on its entry. -/
theorem child_congr {memory' : ByteMemory} {table' : Nat} {index' : Fin 512}
    (same : readEntry memory' table' index' = readEntry memory table index) :
    child memory' table' index' = child memory table index := by
  simp only [child, same]

end Child

theorem tableAt_snoc {memory : ByteMemory} {root table : Nat} {path : List (Fin 512)}
    (reached : tableAt memory root path = some table) (index : Fin 512) :
    tableAt memory root (path ++ [index]) = child memory table index := by
  have here : descend (child memory) root path = some table := reached
  rw [tableAt, descend_snoc, here]
  rfl

namespace WellFormed

variable {machine : Machine} {root : Nat} (valid : WellFormed machine root)

include valid

theorem table_aligned {path : List (Fin 512)} {table : Nat} (short : path.length ≤ 3)
    (reached : tableAt machine.memory root path = some table) : table % 4096 = 0 := by
  induction path using List.reverseRecOn with
  | nil =>
      cases reached
      exact valid.root_aligned
  | append_singleton path index ih =>
  obtain ⟨parent, above, link⟩ := descend_of_snoc reached
  simp only [List.length_append, List.length_singleton] at short
  obtain ⟨here, small, rfl⟩ := child_eq_some_iff.mp link
  have clear := (valid.upper path parent index (by omega) above here).2
  rw [tableAddress_eq_frame clear]
  exact frame_aligned _

/-- Two positions of the tree that hold the same slot are the same position. -/
theorem path_eq {first second : List (Fin 512)} {table : Nat}
    (firstShort : first.length ≤ 3) (secondShort : second.length ≤ 3)
    (firstReached : tableAt machine.memory root first = some table)
    (secondReached : tableAt machine.memory root second = some table) :
    first = second :=
  valid.unshared first second table firstShort secondShort firstReached secondReached

end WellFormed

/-- A path is only reached through entries that link tables. -/
theorem present_of_reached {memory : ByteMemory} {root table upperTable : Nat}
    {above below : List (Fin 512)} {slot : Fin 512}
    (reached : tableAt memory root (above ++ slot :: below) = some table)
    (here : tableAt memory root above = some upperTable) :
    present (readEntry memory upperTable slot) = true := by
  have link : descend (child memory) root above = some upperTable := here
  rw [tableAt, descend_append, link, Option.bind_some, descend] at reached
  obtain ⟨next, step, -⟩ := Option.bind_eq_some_iff.mp reached
  exact (child_eq_some_iff.mp step).1

theorem prefix_reached {memory : ByteMemory} {root table : Nat}
    {above below : List (Fin 512)}
    (reached : tableAt memory root (above ++ below) = some table) :
    ∃ upperTable, tableAt memory root above = some upperTable := by
  rw [tableAt, descend_append] at reached
  obtain ⟨next, step, -⟩ := Option.bind_eq_some_iff.mp reached
  exact ⟨next, step⟩

/-- The translation that a page-table entry stands for. -/
def pageView (entry : Entry) : Option Translation :=
  if present entry then some (combine (frame entry) [entry]) else none

/-- The translation that a 2 MiB leaf stands for at one of its pages. -/
def hugeView (entry : Entry) (index : Fin 512) : Option Translation :=
  if present entry then some (combine (hugeFrame entry + index * 2 ^ 12) [entry])
  else none

/-- The translation at a position of the tree, read from the leaf alone. -/
def leafView (memory : ByteMemory) (root : Nat) (first second third last : Fin 512) :
    Option Translation :=
  match tableAt memory root [first, second, third] with
  | some pt => pageView (readEntry memory pt last)
  | none =>
      match tableAt memory root [first, second] with
      | some pd => hugeView (readEntry memory pd third) last
      | none => none

/-- The translation of an address, read from the leaf alone. -/
def view (memory : ByteMemory) (root virt : Nat) : Option Translation :=
  leafView memory root (pml4Index virt) (pdptIndex virt) (pdIndex virt) (ptIndex virt)

section View

variable {memory : ByteMemory} {root virt table : Nat}

theorem view_of_page (reached : tableAt memory root (tablePath virt) = some table) :
    view memory root virt = pageView (readEntry memory table (ptIndex virt)) := by
  unfold tablePath at reached
  simp only [view, leafView, reached]

theorem view_of_directory
    (reached : tableAt memory root [pml4Index virt, pdptIndex virt] = some table)
    (unlinked : child memory table (pdIndex virt) = none) :
    view memory root virt =
      hugeView (readEntry memory table (pdIndex virt)) (ptIndex virt) := by
  have below := (tableAt_snoc reached (pdIndex virt)).trans unlinked
  simp only [List.cons_append, List.nil_append] at below
  simp only [view, leafView, below, reached]

theorem view_of_no_directory
    (gone : tableAt memory root [pml4Index virt, pdptIndex virt] = none) :
    view memory root virt = none := by
  have below : tableAt memory root
      ([pml4Index virt, pdptIndex virt] ++ [pdIndex virt]) = none := by
    rw [tableAt, descend_snoc]
    rw [tableAt] at gone
    rw [gone]
    rfl
  simp only [List.cons_append, List.nil_append] at below
  simp only [view, leafView, below, gone]

theorem view_of_no_pdpt (gone : child memory root (pml4Index virt) = none) :
    view memory root virt = none := by
  apply view_of_no_directory
  simp only [tableAt, descend, gone, Option.bind_none]

/-- A translation comes from an entry of the tree that is present. -/
theorem exists_entry_of_leafView {first second third last : Fin 512}
    {translation : Translation}
    (found : leafView memory root first second third last = some translation) :
    ∃ path table index, path.length ≤ 3 ∧ tableAt memory root path = some table ∧
      present (readEntry memory table index) = true ∧
      translation.user = user (readEntry memory table index) := by
  simp only [leafView] at found
  split at found
  · next pt reached =>
      simp only [pageView] at found
      split at found
      · next used =>
          cases found
          exact ⟨_, pt, last, by simp, reached, used, by simp [combine]⟩
      · cases found
  · split at found
    · next pd reached =>
        simp only [hugeView] at found
        split at found
        · next used =>
            cases found
            exact ⟨_, pd, third, by simp, reached, used, by simp [combine]⟩
        · cases found
    · cases found

end View

/-- Entries that allow everything do not change a translation. -/
theorem combine_append_of_open {address : Nat} {above : List Entry} {leaf : Entry}
    (opened : ∀ entry ∈ above, writable entry = true ∧ nx entry = false ∧
      (user leaf = true → user entry = true)) :
    combine address (above ++ [leaf]) = combine address [leaf] := by
  induction above with
  | nil => rfl
  | cons entry above ih =>
  obtain ⟨write, execute, access⟩ := opened entry List.mem_cons_self
  rw [← ih fun entry member => opened entry (List.mem_cons_of_mem _ member)]
  simp only [combine, List.cons_append, List.all_cons, List.any_cons, write, execute,
    Bool.true_and, Bool.false_or, Translation.mk.injEq, true_and, and_true]
  cases leafUser : user leaf with
  | true => simp [access leafUser]
  | false => simp [leafUser]

theorem nx_of_highClear {entry : Entry} (clear : HighClear entry) : nx entry = false := by
  have bit := congrArg (fun word : BitVec 64 => word.getLsbD 63) clear
  have mask : (0xFFF0000000000000#64).getLsbD 63 = true := by decide
  simpa [BitVec.getLsbD_and, mask, nx] using bit

/-- The entries that a path goes through. -/
def entriesAlong (memory : ByteMemory) : Nat → List (Fin 512) → List Entry
  | _, [] => []
  | table, index :: path =>
      readEntry memory table index ::
        entriesAlong memory (tableAddress (readEntry memory table index)) path

theorem entriesAlong_append {memory : ByteMemory} {root table : Nat}
    {path : List (Fin 512)} (index : Fin 512)
    (reached : tableAt memory root path = some table) :
    entriesAlong memory root (path ++ [index]) =
      entriesAlong memory root path ++ [readEntry memory table index] := by
  induction path generalizing root with
  | nil =>
      cases reached
      rfl
  | cons slot path ih =>
      obtain ⟨next, step, rest⟩ := Option.bind_eq_some_iff.mp reached
      obtain ⟨-, -, rfl⟩ := child_eq_some_iff.mp step
      simp only [List.cons_append, entriesAlong]
      rw [ih rest]

theorem exists_of_mem_entriesAlong {memory : ByteMemory} {root table : Nat}
    {path : List (Fin 512)} {entry : Entry}
    (reached : tableAt memory root path = some table)
    (member : entry ∈ entriesAlong memory root path) :
    ∃ above slot below upperTable, path = above ++ slot :: below ∧
      tableAt memory root above = some upperTable ∧
      entry = readEntry memory upperTable slot := by
  induction path generalizing root with
  | nil => cases member
  | cons index path ih =>
  obtain ⟨next, step, rest⟩ := Option.bind_eq_some_iff.mp reached
  obtain ⟨-, -, rfl⟩ := child_eq_some_iff.mp step
  rcases List.mem_cons.mp member with rfl | later
  · exact ⟨[], index, path, root, rfl, rfl, rfl⟩
  · obtain ⟨above, slot, below, upperTable, rfl, here, same⟩ := ih rest later
    refine ⟨index :: above, slot, below, upperTable, rfl, ?_, same⟩
    simp only [tableAt, descend, step, Option.bind_some]
    exact here

namespace WellFormed

variable {machine : Machine} {root : Nat} (valid : WellFormed machine root)

include valid

/-- The entries above a leaf do not restrict it. -/
theorem combine_entriesAlong {path : List (Fin 512)} {table address : Nat}
    {index : Fin 512} (short : path.length ≤ 3)
    (reached : tableAt machine.memory root path = some table)
    (leaf : IsLeaf path.length (readEntry machine.memory table index)) :
    combine address
        (entriesAlong machine.memory root path ++ [readEntry machine.memory table index]) =
      combine address [readEntry machine.memory table index] := by
  apply combine_append_of_open
  intro entry member
  obtain ⟨above, slot, below, upperTable, rfl, here, rfl⟩ :=
    exists_of_mem_entriesAlong reached member
  simp only [List.length_append, List.length_cons] at short
  have used := present_of_reached reached here
  obtain ⟨write, clear⟩ := valid.upper above upperTable slot (by omega) here used
  refine ⟨write, nx_of_highClear clear, fun access => ?_⟩
  exact valid.user_open _ table index (by simpa using short) reached leaf access
    above slot below upperTable rfl here

/-- Below the page directories a slot that links a table leads to it. -/
theorem reached_frame {path : List (Fin 512)} {table : Nat} {index : Fin 512}
    (short : path.length ≤ 2) (reached : tableAt machine.memory root path = some table)
    (used : present (readEntry machine.memory table index) = true)
    (small : huge (readEntry machine.memory table index) = false) :
    tableAt machine.memory root (path ++ [index]) =
      some (frame (readEntry machine.memory table index)) := by
  have clear := (valid.upper path table index short reached used).2
  rw [tableAt_snoc reached]
  exact child_eq_some_iff.mpr ⟨used, small, tableAddress_eq_frame clear⟩

theorem walkPageTable_eq {virt pt : Nat} {above : List Entry}
    (reached : tableAt machine.memory root (tablePath virt) = some pt)
    (along : above = entriesAlong machine.memory root (tablePath virt)) :
    walkPageTable machine.memory pt virt above = view machine.memory root virt := by
  subst along
  rw [view_of_page reached]
  simp only [walkPageTable, pageView]
  cases used : present (readEntry machine.memory pt (ptIndex virt)) with
  | false => rfl
  | true =>
      simp only [Bool.not_true, Bool.false_eq_true, ↓reduceIte]
      rw [valid.combine_entriesAlong (length_tablePath virt).le reached ⟨used, .inl rfl⟩]

theorem walkPageDirectory_eq {virt pd : Nat} {above : List Entry}
    (reached : tableAt machine.memory root [pml4Index virt, pdptIndex virt] = some pd)
    (along : above =
      entriesAlong machine.memory root [pml4Index virt, pdptIndex virt]) :
    walkPageDirectory machine.memory pd virt above = view machine.memory root virt := by
  subst along
  have link := tableAt_snoc reached (pdIndex virt)
  have longer := entriesAlong_append (pdIndex virt) reached
  simp only [List.cons_append, List.nil_append] at link longer
  simp only [walkPageDirectory]
  cases used : present (readEntry machine.memory pd (pdIndex virt)) with
  | false =>
      rw [view_of_directory reached (child_eq_none_of_not_present used)]
      simp [hugeView, used]
  | true =>
  cases large : huge (readEntry machine.memory pd (pdIndex virt)) with
  | true =>
      rw [view_of_directory reached (child_eq_none_of_huge large)]
      simp only [Bool.not_true, Bool.false_eq_true, ↓reduceIte, hugeView, used]
      rw [valid.combine_entriesAlong (by simp) reached ⟨used, .inr large⟩]
  | false =>
      have next := valid.reached_frame (by simp) reached used large
      simp only [Bool.not_true, Bool.false_eq_true, ↓reduceIte]
      exact valid.walkPageTable_eq next longer.symm

theorem walkPdpt_eq {virt pdpt : Nat} {above : List Entry}
    (reached : tableAt machine.memory root [pml4Index virt] = some pdpt)
    (along : above = entriesAlong machine.memory root [pml4Index virt]) :
    walkPdpt machine.memory pdpt virt above = view machine.memory root virt := by
  subst along
  have link := tableAt_snoc reached (pdptIndex virt)
  have longer := entriesAlong_append (pdptIndex virt) reached
  simp only [List.cons_append, List.nil_append] at link longer
  simp only [walkPdpt]
  cases used : present (readEntry machine.memory pdpt (pdptIndex virt)) with
  | false =>
      rw [child_eq_none_of_not_present used] at link
      rw [view_of_no_directory link]
      rfl
  | true =>
      have small := valid.no_gigabyte [pml4Index virt] pdpt (pdptIndex virt)
        (by simp) reached used
      have next := valid.reached_frame (by simp) reached used small
      simp only [small, Bool.not_true, Bool.false_eq_true, ↓reduceIte]
      exact valid.walkPageDirectory_eq next longer.symm

/-- In a well-formed tree the processor's walk is determined by the leaf. -/
theorem hardwareWalk_eq {virt : Nat} (canonical : Canonical virt) :
    hardwareWalk machine.memory root virt = view machine.memory root virt := by
  have atRoot : tableAt machine.memory root [] = some root := rfl
  simp only [hardwareWalk, canonical, not_true_eq_false, false_or]
  cases used : present (readEntry machine.memory root (pml4Index virt)) with
  | false =>
      rw [view_of_no_pdpt (child_eq_none_of_not_present used)]
      rfl
  | true =>
      have small := valid.no_gigabyte [] root (pml4Index virt) (by simp) atRoot used
      have next := valid.reached_frame (by simp) atRoot used small
      simp only [small, Bool.true_eq_false, Bool.false_eq_true, or_self, ↓reduceIte]
      exact valid.walkPdpt_eq next rfl

end WellFormed

end Charis.Memory
