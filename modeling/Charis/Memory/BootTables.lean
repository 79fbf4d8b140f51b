import Charis.Memory.AddressSpaceCopy

/-!
# The page tables of the boot code

`setup_page_tables` of `boot.asm` maps the first GiB to itself by 2 MiB leaves.
The tree is one from which address spaces can be created, and creating one takes
three pages.
-/

namespace Charis.Memory

open Charis.Lib
open Charis.Lib.RadixTree
open Entry

/-- The loop that fills the page directory, after `count` rounds.  Each round
stores the low half of an entry. -/
def bootDirectory (memory : ByteMemory) (pd : Nat) : Nat → ByteMemory
  | 0 => memory
  | count + 1 =>
      (bootDirectory memory pd count).writeLE (pd + 8 * count) 4 (count * 2 ^ 21 + 0x83)

/-- `setup_page_tables`, with the three tables one after the other. -/
def setupPageTables (memory : ByteMemory) (pml4 : Nat) : ByteMemory :=
  let pdpt := pml4 + 4096
  let pd := pml4 + 8192
  let cleared := memory.fill pml4 (4096 * 3) 0
  let linked := (cleared.writeLE pml4 4 (pdpt ||| 3)).writeLE pdpt 4 (pd ||| 3)
  bootDirectory linked pd 512

/-- A four-byte store over zeros is an eight-byte number. -/
theorem readEntry_of_dword {memory : ByteMemory} {table value : Nat} {index : Fin 512}
    (small : value < 2 ^ 32)
    (low : ∀ offset < 4,
      memory (table + 8 * index + offset) = ByteMemory.leByte value offset)
    (high : ∀ offset < 8, 4 ≤ offset → memory (table + 8 * index + offset) = 0) :
    readEntry memory table index = BitVec.ofNat 64 value := by
  rw [readEntry, @ByteMemory.readLE_eq_mod memory _ 8 value, Nat.mod_eq_of_lt]
  · exact small.trans (by norm_num)
  · intro offset inside
    by_cases first : offset < 4
    · exact low offset first
    · have power : 2 ^ 32 ≤ 256 ^ offset := by
        calc 2 ^ 32 = 256 ^ 4 := by norm_num
          _ ≤ 256 ^ offset := Nat.pow_le_pow_right (by omega) (by omega)
      rw [high offset inside (by omega), ByteMemory.leByte,
        Nat.div_eq_of_lt (small.trans_le power)]
      rfl

theorem bootDirectory_of_outside {memory : ByteMemory} {pd count address : Nat}
    (outside : address < pd ∨ pd + 8 * count ≤ address) :
    bootDirectory memory pd count address = memory address := by
  induction count with
  | zero => rfl
  | succ count ih =>
      rw [bootDirectory, ByteMemory.writeLE_of_outside (by omega)]
      exact ih (by omega)

theorem bootDirectory_of_inside {memory : ByteMemory} {pd count index offset : Nat}
    (inside : index < count) (small : offset < 8) :
    bootDirectory memory pd count (pd + 8 * index + offset) =
      if offset < 4 then ByteMemory.leByte (index * 2 ^ 21 + 0x83) offset
      else memory (pd + 8 * index + offset) := by
  induction count with
  | zero => omega
  | succ count ih =>
  rw [bootDirectory]
  by_cases last : index = count
  · subst last
    by_cases first : offset < 4
    · simp only [ByteMemory.writeLE, first, ↓reduceIte]
      rw [if_pos (by omega), Nat.add_sub_cancel_left]
    · rw [ByteMemory.writeLE_of_outside (by omega), if_neg first]
      exact bootDirectory_of_outside (by omega)
  · rw [ByteMemory.writeLE_of_outside (by omega)]
    exact ih (by omega)

section Entries

variable (memory : ByteMemory) {pml4 : Nat}

theorem setupPageTables_zero {address : Nat} (inside : pml4 ≤ address)
    (below : address < pml4 + 8192) (unstored : address % 4096 ≥ 4)
    (aligned : pml4 % 4096 = 0) : setupPageTables memory pml4 address = 0 := by
  simp only [setupPageTables]
  rw [bootDirectory_of_outside (by omega), ByteMemory.writeLE_of_outside (by omega),
    ByteMemory.writeLE_of_outside (by omega),
    ByteMemory.fill_of_inside (by omega) (by omega)]

theorem setupPageTables_of_outside {address : Nat}
    (outside : address < pml4 ∨ pml4 + 12288 ≤ address) :
    setupPageTables memory pml4 address = memory address := by
  simp only [setupPageTables]
  rw [bootDirectory_of_outside (by omega), ByteMemory.writeLE_of_outside (by omega),
    ByteMemory.writeLE_of_outside (by omega), ByteMemory.fill_of_outside (by omega)]

variable (aligned : pml4 % 4096 = 0) (low : pml4 + 12288 ≤ 2 ^ 32)

include aligned in
theorem readEntry_boot_empty {table : Nat} {index : Fin 512}
    (upper : table = pml4 ∨ table = pml4 + 4096) (later : index ≠ 0) :
    readEntry (setupPageTables memory pml4) table index = 0#64 := by
  have positive : 0 < index.val := Nat.pos_of_ne_zero fun zero => later (Fin.ext zero)
  have below := index.isLt
  rw [readEntry, ByteMemory.readLE_zero_of_bytes]
  intro offset small
  exact setupPageTables_zero memory (by omega) (by omega) (by omega) aligned

include aligned low

theorem readEntry_boot_pml4 :
    readEntry (setupPageTables memory pml4) pml4 0 =
      BitVec.ofNat 64 (pml4 + 4096 ||| 3) := by
  apply readEntry_of_dword (Nat.or_lt_two_pow (by omega) (by norm_num))
  · intro offset small
    simp only [setupPageTables, Fin.val_zero, Nat.mul_zero, Nat.add_zero]
    rw [bootDirectory_of_outside (by omega), ByteMemory.writeLE_of_outside (by omega)]
    simp [ByteMemory.writeLE, small]
  · intro offset small later
    simp only [Fin.val_zero]
    exact setupPageTables_zero memory (by omega) (by omega) (by omega) aligned

theorem readEntry_boot_pdpt :
    readEntry (setupPageTables memory pml4) (pml4 + 4096) 0 =
      BitVec.ofNat 64 (pml4 + 8192 ||| 3) := by
  apply readEntry_of_dword (Nat.or_lt_two_pow (by omega) (by norm_num))
  · intro offset small
    simp only [setupPageTables, Fin.val_zero, Nat.mul_zero, Nat.add_zero]
    rw [bootDirectory_of_outside (by omega)]
    simp [ByteMemory.writeLE, small]
  · intro offset small later
    simp only [Fin.val_zero]
    exact setupPageTables_zero memory (by omega) (by omega) (by omega) aligned

omit aligned low in
theorem readEntry_boot_pd (index : Fin 512) :
    readEntry (setupPageTables memory pml4) (pml4 + 8192) index =
      BitVec.ofNat 64 (index * 2 ^ 21 + 0x83) := by
  have below := index.isLt
  apply readEntry_of_dword (by omega)
  · intro offset small
    simp only [setupPageTables]
    rw [bootDirectory_of_inside below (by omega), if_pos small]
  · intro offset small later
    simp only [setupPageTables]
    rw [bootDirectory_of_inside below small, if_neg (by omega),
      ByteMemory.writeLE_of_outside (by omega), ByteMemory.writeLE_of_outside (by omega),
      ByteMemory.fill_of_inside (by omega) (by omega)]

end Entries

/-- The links of the boot code are those of `get_or_create_table`. -/
theorem ofNat_or_three {address : Nat} (aligned : address % 4096 = 0) :
    BitVec.ofNat 64 (address ||| 3) = tableEntry address 0 := by
  rw [tableEntry_eq aligned, BitVec.ofNat_or]
  rfl

section Leaves

variable (index : Fin 512)

theorem bootLeaf_eq :
    BitVec.ofNat 64 (index * 2 ^ 21 + 0x83) =
      BitVec.ofNat 64 (index * 2 ^ 21) ||| 0x83#64 := by
  have split : (index : Nat) * 2 ^ 21 + 0x83 = index * 2 ^ 21 ||| 0x83 := by
    rw [Nat.mul_comm]
    exact Nat.two_pow_add_eq_or_of_lt (by norm_num) _
  rw [split, BitVec.ofNat_or]

theorem getLsbD_bootLeaf {bit : Nat} (outside : ¬ (12 ≤ bit ∧ bit < 52)) :
    (BitVec.ofNat 64 ((index : Nat) * 2 ^ 21 + 0x83)).getLsbD bit =
      (0x83#64).getLsbD bit := by
  have below := index.isLt
  rw [bootLeaf_eq, getLsbD_or (by omega) (by omega) outside]

theorem highClear_bootLeaf : HighClear (BitVec.ofNat 64 ((index : Nat) * 2 ^ 21 + 0x83)) := by
  have below := index.isLt
  rw [bootLeaf_eq]
  exact highClear_or (by omega) (by omega) rfl

end Leaves

section Tree

variable {machine : Machine} {memory : ByteMemory} {pml4 : Nat}
  (aligned : pml4 % 4096 = 0) (low : pml4 + 12288 ≤ 2 ^ 32)

include aligned low

omit low in
theorem child_boot {table next : Nat} (upper : table = pml4 ∨ table = pml4 + 4096)
    (linked : readEntry (setupPageTables memory pml4) table 0 = BitVec.ofNat 64 (next ||| 3))
    (pageAligned : next % 4096 = 0) (small : next < 2 ^ 52) (index : Fin 512) :
    child (setupPageTables memory pml4) table index =
      if index = 0 then some next else none := by
  split
  · next zero =>
      rw [zero, child_eq_some_iff, linked, ofNat_or_three pageAligned,
        tableAddress_eq_frame (highClear_tableEntry pageAligned small)]
      exact ⟨present_tableEntry pageAligned small, huge_tableEntry pageAligned small,
        frame_tableEntry pageAligned small⟩
  · next later =>
      apply child_eq_none_of_not_present
      rw [readEntry_boot_empty memory aligned upper later]
      rfl

theorem child_boot_pml4 (index : Fin 512) :
    child (setupPageTables memory pml4) pml4 index =
      if index = 0 then some (pml4 + 4096) else none :=
  child_boot aligned (.inl rfl) (readEntry_boot_pml4 memory aligned low) (by omega)
    (by omega) index

theorem child_boot_pdpt (index : Fin 512) :
    child (setupPageTables memory pml4) (pml4 + 4096) index =
      if index = 0 then some (pml4 + 8192) else none :=
  child_boot aligned (.inr rfl) (readEntry_boot_pdpt memory aligned low) (by omega)
    (by omega) index

omit aligned low in
theorem child_boot_pd (index : Fin 512) :
    child (setupPageTables memory pml4) (pml4 + 8192) index = none := by
  apply child_eq_none_of_huge
  rw [readEntry_boot_pd, huge, getLsbD_bootLeaf index (by decide)]
  rfl

theorem boot_cases {path : List (Fin 512)} {table : Nat} (short : path.length ≤ 3)
    (reached : tableAt (setupPageTables memory pml4) pml4 path = some table) :
    (path = [] ∧ table = pml4) ∨ (path = [0] ∧ table = pml4 + 4096) ∨
      (path = [0, 0] ∧ table = pml4 + 8192) := by
  cases path with
  | nil =>
      cases reached
      exact .inl ⟨rfl, rfl⟩
  | cons first path =>
  simp only [tableAt, descend, child_boot_pml4 aligned low] at reached
  split at reached
  case isFalse => cases reached
  case isTrue zero =>
  subst zero
  cases path with
  | nil =>
      cases reached
      exact .inr (.inl ⟨rfl, rfl⟩)
  | cons second path =>
  simp only [Option.bind_some, descend, child_boot_pdpt aligned low] at reached
  split at reached
  case isFalse => cases reached
  case isTrue zero =>
  subst zero
  cases path with
  | nil =>
      cases reached
      exact .inr (.inr ⟨rfl, rfl⟩)
  | cons third path => simp [descend, child_boot_pd] at reached

theorem boot_entry_cases {path : List (Fin 512)} {table : Nat} {index : Fin 512}
    (short : path.length ≤ 3)
    (reached : tableAt (setupPageTables memory pml4) pml4 path = some table)
    (used : present (readEntry (setupPageTables memory pml4) table index) = true) :
    (path.length ≤ 1 ∧ ∃ address, address % 4096 = 0 ∧ address < 2 ^ 52 ∧
        readEntry (setupPageTables memory pml4) table index = tableEntry address 0) ∨
      (path.length = 2 ∧ readEntry (setupPageTables memory pml4) table index =
        BitVec.ofNat 64 ((index : Nat) * 2 ^ 21 + 0x83)) := by
  rcases boot_cases aligned low short reached with ⟨rfl, rfl⟩ | ⟨rfl, rfl⟩ | ⟨rfl, rfl⟩
  · by_cases zero : index = 0
    · subst zero
      refine .inl ⟨by simp, _, ?_, ?_, (readEntry_boot_pml4 memory aligned low).trans
        (ofNat_or_three ?_)⟩ <;> omega
    · rw [readEntry_boot_empty memory aligned (.inl rfl) zero] at used
      cases used
  · by_cases zero : index = 0
    · subst zero
      refine .inl ⟨by simp, _, ?_, ?_, (readEntry_boot_pdpt memory aligned low).trans
        (ofNat_or_three ?_)⟩ <;> omega
    · rw [readEntry_boot_empty memory aligned (.inr rfl) zero] at used
      cases used
  · exact .inr ⟨rfl, readEntry_boot_pd memory index⟩

/-- Nothing in the boot tree is open to user accesses. -/
theorem boot_closed {path : List (Fin 512)} {table : Nat} {index : Fin 512}
    (short : path.length ≤ 3)
    (reached : tableAt (setupPageTables memory pml4) pml4 path = some table)
    (used : present (readEntry (setupPageTables memory pml4) table index) = true) :
    user (readEntry (setupPageTables memory pml4) table index) = false := by
  rcases boot_entry_cases aligned low short reached used with
    ⟨-, address, pageAligned, small, same⟩ | ⟨-, same⟩
  · rw [same, user_tableEntry pageAligned small]
    rfl
  · rw [same, user, getLsbD_bootLeaf index (by decide)]
    rfl

/-- The boot tree is a kernel tree, if the allocator knows of its tables. -/
theorem kernelSpace_boot (tables : machine.memory = setupPageTables memory pml4)
    (used : ∀ table ∈ [pml4, pml4 + 4096, pml4 + 8192], ¬ machine.pmm.Available table) :
    KernelSpace machine pml4 := by
  have valid : WellFormed machine pml4 := by
    constructor
    case root_aligned => exact aligned
    all_goals rw [tables]
    case unshared =>
      intro first second node firstShort secondShort firstReached secondReached
      rcases boot_cases aligned low firstShort firstReached with
        ⟨rfl, rfl⟩ | ⟨rfl, rfl⟩ | ⟨rfl, rfl⟩ <;>
      rcases boot_cases aligned low secondShort secondReached with
        ⟨rfl, same⟩ | ⟨rfl, same⟩ | ⟨rfl, same⟩ <;>
      first | rfl | omega
    case owned =>
      intro path table short reached
      apply used
      rcases boot_cases aligned low short reached with
        ⟨-, rfl⟩ | ⟨-, rfl⟩ | ⟨-, rfl⟩ <;> simp
    case upper =>
      intro path table index short reached here
      rcases boot_entry_cases aligned low (by omega) reached here with
        ⟨-, address, pageAligned, small, same⟩ | ⟨-, same⟩
      · rw [same]
        exact ⟨writable_tableEntry pageAligned small, highClear_tableEntry pageAligned small⟩
      · rw [same]
        refine ⟨?_, highClear_bootLeaf index⟩
        rw [writable, getLsbD_bootLeaf index (by decide)]
        rfl
    case no_gigabyte =>
      intro path table index short reached here
      rcases boot_entry_cases aligned low (by omega) reached here with
        ⟨-, address, pageAligned, small, same⟩ | ⟨deep, -⟩
      · rw [same]
        exact huge_tableEntry pageAligned small
      · omega
    case large_closed =>
      intro path table index short reached here _
      exact boot_closed aligned low (by omega) reached here
    case user_open =>
      intro path table index short reached leaf access
      rw [boot_closed aligned low short reached leaf.1] at access
      cases access
  refine { toWellFormed := valid, closed := ?_ }
  intro first second third last translation found
  rw [tables] at found
  obtain ⟨path, table, index, short, reached, here, same⟩ := exists_entry_of_leafView found
  rw [same]
  exact boot_closed aligned low short reached here

end Tree

/-! ## Creating an address space from the boot tree -/

theorem copyLink_links {phys table : Nat} (aligned : phys % 4096 = 0) (small : phys < 2 ^ 52)
    (tableAligned : table % 4096 = 0) (tableSmall : table < 2 ^ 52) :
    (present (copyLink phys (tableEntry table 0)) &&
        !huge (copyLink phys (tableEntry table 0))) = true ∧
      tableAddress (copyLink phys (tableEntry table 0)) = phys := by
  have flags := @sameFlags_copyLink phys (tableEntry table 0) aligned small
  have clear := highClear_copyLink aligned small
    (@highClear_tableEntry table 0 tableAligned tableSmall)
  rw [flags.present, flags.huge, present_tableEntry tableAligned tableSmall,
    huge_tableEntry tableAligned tableSmall, tableAddress_eq_frame clear,
    frame_copyLink aligned small]
  exact ⟨rfl, rfl⟩

theorem forSlots_of_skip {body : Machine → Fin 512 → Bool × Machine} {machine : Machine}
    {slots : List (Fin 512)} (skip : ∀ index ∈ slots, body machine index = (true, machine)) :
    forSlots body machine slots = (true, machine) := by
  induction slots with
  | nil => rfl
  | cons index slots ih =>
      simp only [forSlots, skip index List.mem_cons_self]
      exact ih fun later member => skip later (List.mem_cons_of_mem _ member)

section New

variable {machine : Machine} {memory : ByteMemory} {pml4 : Nat}

/-- A machine whose memory still has the boot tables. -/
def HasBootTables (machine : Machine) (memory : ByteMemory) (pml4 : Nat) : Prop :=
  ∀ table ∈ [pml4, pml4 + 4096, pml4 + 8192],
    ByteMemory.AgreeOn machine.memory (setupPageTables memory pml4) table (table + 4096)

variable (boot : HasBootTables machine memory pml4) (aligned : pml4 % 4096 = 0)
  (low : pml4 + 12288 ≤ 2 ^ 32)

include boot

/-- The page directory has nothing to copy. -/
theorem clonePageTables_boot (target : Nat) :
    forSlots (clonePageTable (pml4 + 8192) target) machine (List.finRange 512) =
      (true, machine) := by
  apply forSlots_of_skip
  intro index _
  have entry : readEntry machine.memory (pml4 + 8192) index =
      BitVec.ofNat 64 ((index : Nat) * 2 ^ 21 + 0x83) :=
    (readEntry_congr (boot _ (by simp))).trans (readEntry_boot_pd memory index)
  have large : huge (readEntry machine.memory (pml4 + 8192) index) = true := by
    rw [entry, huge, getLsbD_bootLeaf index (by decide)]
    rfl
  simp [clonePageTable, large]

include aligned low

/-- Copying below the boot PDPT takes one page, for a copy of the page
directory. -/
theorem clonePageDirectories_boot {pdpt : Nat} (pdptAligned : pdpt % 4096 = 0)
    (pdptUsed : ¬ machine.pmm.Available pdpt)
    (pdptApart : ∀ table ∈ [pml4, pml4 + 4096, pml4 + 8192], table ≠ pdpt)
    (available : machine.pmm.allocPage.1 ≠ 0)
    (used : ∀ table ∈ [pml4, pml4 + 4096, pml4 + 8192], ¬ machine.pmm.Available table) :
    ∃ machine',
      forSlots (clonePageDirectory (pml4 + 4096) pdpt) machine (List.finRange 512) =
        (true, machine') ∧
      readEntry machine'.memory pdpt 0 =
        copyLink machine.pmm.allocPage.1 (tableEntry (pml4 + 8192) 0) ∧
      (∀ index, readEntry machine'.memory machine.pmm.allocPage.1 index =
        BitVec.ofNat 64 ((index : Nat) * 2 ^ 21 + 0x83)) ∧
      machine'.pmm = machine.pmm.allocPage.2 := by
  have directory : readEntry machine.memory (pml4 + 4096) 0 =
      tableEntry (pml4 + 8192) 0 :=
    ((readEntry_congr (boot _ (by simp))).trans
      (readEntry_boot_pdpt memory aligned low)).trans (ofNat_or_three (by omega))
  have pageAligned : (pml4 + 8192) % 4096 = 0 := by omega
  have small : pml4 + 8192 < 2 ^ 52 := by omega
  have linked : tableAddress (tableEntry (pml4 + 8192) 0) = pml4 + 8192 :=
    (tableAddress_eq_frame (highClear_tableEntry pageAligned small)).trans
      (frame_tableEntry pageAligned small)
  rcases machine.pmm.allocPage_cases with failed | taken
  · rw [failed] at available
    exact absurd rfl available
  have freshAligned := taken.1.aligned
  -- the machine after the only table has been copied
  set copied : Machine :=
    { machine with
      memory := writeEntry
        (copyEntries machine.memory machine.pmm.allocPage.1 (pml4 + 8192)
          (List.finRange 512)) pdpt 0
        (copyLink machine.pmm.allocPage.1 (tableEntry (pml4 + 8192) 0))
      pmm := machine.pmm.allocPage.2 } with copiedEq
  have boot' : HasBootTables copied memory pml4 := by
    intro table member
    have tableAligned : table % 4096 = 0 := by
      simp only [List.mem_cons, List.not_mem_nil, or_false] at member
      omega
    have notPdpt := pdptApart table member
    have notFresh : table ≠ machine.pmm.allocPage.1 := by
      intro same
      exact used table member (same ▸ taken.1)
    have kept : ByteMemory.AgreeOn copied.memory machine.memory table (table + 4096) :=
      (agreeOn_writeEntry (by omega)).trans (agreeOn_copyEntries (by omega))
    exact kept.trans (boot table member)
  have first : clonePageDirectory (pml4 + 4096) pdpt machine 0 = (true, copied) := by
    simp only [clonePageDirectory, directory, present_tableEntry pageAligned small,
      huge_tableEntry pageAligned small, cloneTable, linked, available, ↓reduceIte,
      Bool.not_true, Bool.or_self, Bool.false_eq_true]
    exact clonePageTables_boot boot' _
  have directoryFresh : pml4 + 8192 ≠ machine.pmm.allocPage.1 := by
    intro same
    exact used _ (by simp) (same ▸ taken.1)
  have content (index : Fin 512) : readEntry copied.memory machine.pmm.allocPage.1 index =
      BitVec.ofNat 64 ((index : Nat) * 2 ^ 21 + 0x83) := by
    refine (readEntry_writeEntry_of_ne pdptAligned freshAligned ?_).trans ?_
    · intro same
      have samePage : machine.pmm.allocPage.1 = pdpt := congrArg Prod.fst same
      exact pdptUsed (samePage ▸ taken.1)
    · rw [readEntry_copyEntries freshAligned pageAligned directoryFresh,
        if_pos (List.mem_finRange index)]
      exact (readEntry_congr (boot _ (by simp))).trans (readEntry_boot_pd memory index)
  refine ⟨copied, ?_, readEntry_writeEntry_self, content, rfl⟩
  rw [show List.finRange 512 = 0 :: (List.finRange 511).map Fin.succ from
    List.finRange_succ]
  simp only [forSlots, first]
  apply forSlots_of_skip
  intro index member
  have later : index ≠ 0 := by
    obtain ⟨before, -, rfl⟩ := List.mem_map.mp member
    exact Fin.succ_ne_zero before
  have empty : readEntry copied.memory (pml4 + 4096) index = 0#64 :=
    (readEntry_congr (boot' _ (by simp))).trans
      (readEntry_boot_empty memory aligned (.inr rfl) later)
  simp [clonePageDirectory, empty]

omit boot in
/-- With three pages at hand, the boot tree can be copied; the copy has the leaves
of the boot page directory. -/
theorem newAddressSpace_boot (tables : machine.memory = setupPageTables memory pml4)
    (current : machine.cr3 = pml4)
    (used : ∀ table ∈ [pml4, pml4 + 4096, pml4 + 8192], ¬ machine.pmm.Available table)
    (first : machine.pmm.allocPage.1 ≠ 0)
    (second : machine.pmm.allocPage.2.allocPage.1 ≠ 0)
    (third : machine.pmm.allocPage.2.allocPage.2.allocPage.1 ≠ 0) :
    ∃ root machine' pd, newAddressSpace machine 0 = some (root, machine') ∧
      tableAt machine'.memory root [0, 0] = some pd ∧
      (∀ index, readEntry machine'.memory pd index =
        BitVec.ofNat 64 ((index : Nat) * 2 ^ 21 + 0x83)) ∧
      machine'.pmm = machine.pmm.allocPage.2.allocPage.2.allocPage.2 := by
  rcases machine.pmm.allocPage_cases with failed | rootTaken
  · rw [failed] at first
    exact absurd rfl first
  rcases machine.pmm.allocPage.2.allocPage_cases with failed | pdptTaken
  · rw [failed] at second
    exact absurd rfl second
  have apart {fresh : Nat} (free : machine.pmm.Available fresh) :
      ∀ table ∈ [pml4, pml4 + 4096, pml4 + 8192], table ≠ fresh := by
    rintro table member rfl
    exact used table member free
  have pdptFree := ((rootTaken.2 _).mp pdptTaken.1).1
  have rootAligned := rootTaken.1.aligned
  have pdptAligned := pdptTaken.1.aligned
  simp only [newAddressSpace, createAddressSpace, first, ↓reduceIte]
  simp only [copyKernelMappings, first, current, ↓reduceIte]
  generalize (List.finRange 512).filter (fun index => 256 ≤ index.val) = upper
  have tableAligned : ∀ table ∈ [pml4, pml4 + 4096, pml4 + 8192], table % 4096 = 0 := by
    intro table member
    simp only [List.mem_cons, List.not_mem_nil, or_false] at member
    omega
  -- up to the loops only the new root and the new PDPT have been written
  have shared : ∀ table ∈ [pml4, pml4 + 4096, pml4 + 8192], ByteMemory.AgreeOn
      (copyEntries (machine.memory.fill machine.pmm.allocPage.1 pageSize 0)
        machine.pmm.allocPage.1 pml4 upper)
      (setupPageTables memory pml4) table (table + 4096) := by
    intro table member
    have notRoot := apart rootTaken.1 table member
    have aligned := tableAligned table member
    rw [tables]
    exact (agreeOn_copyEntries (by omega)).trans
      (ByteMemory.agreeOn_fill (by simp only [pageSize]; omega))
  generalize copyEntries (machine.memory.fill machine.pmm.allocPage.1 pageSize 0)
    machine.pmm.allocPage.1 pml4 upper = sharedMemory at shared
  have pageAligned : (pml4 + 4096) % 4096 = 0 := by omega
  have small : pml4 + 4096 < 2 ^ 52 := by omega
  have link : readEntry sharedMemory pml4 0 = tableEntry (pml4 + 4096) 0 :=
    ((readEntry_congr (shared pml4 (by simp))).trans
      (readEntry_boot_pml4 memory aligned low)).trans (ofNat_or_three pageAligned)
  have linked : tableAddress (tableEntry (pml4 + 4096) 0) = pml4 + 4096 :=
    (tableAddress_eq_frame (highClear_tableEntry pageAligned small)).trans
      (frame_tableEntry pageAligned small)
  simp only [link, linked, present_tableEntry pageAligned small, second, Bool.not_true,
    Bool.false_eq_true, ↓reduceIte]
  have copied : HasBootTables
      { machine with
        memory := copyEntries sharedMemory machine.pmm.allocPage.2.allocPage.1 (pml4 + 4096)
          (List.finRange 512)
        pmm := machine.pmm.allocPage.2.allocPage.2 } memory pml4 := by
    intro table member
    have notPdpt := apart pdptFree table member
    have aligned := tableAligned table member
    dsimp only
    exact (agreeOn_copyEntries (by omega)).trans (shared table member)
  have stillUsed : ∀ table ∈ [pml4, pml4 + 4096, pml4 + 8192],
      ¬ machine.pmm.allocPage.2.allocPage.2.Available table := by
    intro table member free
    exact used table member
      ((rootTaken.2 table).mp ((pdptTaken.2 table).mp free).1).1
  have pdptUsed : ¬ machine.pmm.allocPage.2.allocPage.2.Available
      machine.pmm.allocPage.2.allocPage.1 := fun free => ((pdptTaken.2 _).mp free).2 rfl
  obtain ⟨machine', loop, directoryLink, leaves, taken⟩ := clonePageDirectories_boot copied aligned
    low pdptAligned pdptUsed (apart pdptFree) third stillUsed
  rcases machine.pmm.allocPage.2.allocPage.2.allocPage_cases with failed | pdTaken
  · rw [failed] at third
    exact absurd rfl third
  dsimp only at directoryLink leaves
  rw [current] at loop
  rw [loop]
  -- the last store links the new PDPT; the new tables are different pages
  have pdFree := (pdptTaken.2 _).mp pdTaken.1
  have pdRoot : machine.pmm.allocPage.2.allocPage.2.allocPage.1 ≠ machine.pmm.allocPage.1 :=
    ((rootTaken.2 _).mp pdFree.1).2
  have pdptRoot : machine.pmm.allocPage.2.allocPage.1 ≠ machine.pmm.allocPage.1 :=
    ((rootTaken.2 _).mp pdptTaken.1).2
  have pdAligned := pdTaken.1.aligned
  have directoryAligned : (pml4 + 8192) % 4096 = 0 := by omega
  have directorySmall : pml4 + 8192 < 2 ^ 52 := by omega
  have rootLink := copyLink_links pdptAligned (pdptTaken.1.lt.trans (by norm_num)) pageAligned small
  have pdptLink := copyLink_links pdAligned (pdTaken.1.lt.trans (by norm_num)) directoryAligned
    directorySmall
  refine ⟨_, _, machine.pmm.allocPage.2.allocPage.2.allocPage.1, rfl, ?_, ?_, taken⟩
  · simp only [tableAt, descend, child]
    rw [readEntry_writeEntry_self]
    simp only [rootLink, ↓reduceIte, Option.bind_some]
    rw [readEntry_writeEntry_of_ne rootAligned pdptAligned (by simp [pdptRoot]),
      directoryLink]
    simp only [pdptLink, ↓reduceIte, Option.bind_some]
  · intro index
    rw [readEntry_writeEntry_of_ne rootAligned pdAligned (by simp [pdRoot])]
    exact leaves index

end New

/-- An allocator with sixteen pages left, behind the first eight. -/
def bootPmm : Pmm where
  bitmap := fun byte => if byte = 1 ∨ byte = 2 then 0#8 else 0xFF#8
  lastFree := 0
  lastFree_lt := bitmapSize_pos

/-- A machine with the boot tables in the second to fourth page of the
allocator. -/
def bootMachine (memory : ByteMemory) : Machine where
  memory := setupPageTables memory 0x101000
  pmm := bootPmm
  cr3 := 0x101000

theorem bootPmm_not_available {address : Nat} (low : address < 0x108000) :
    ¬ bootPmm.Available address := by
  rintro ⟨byte, bit, -, bitLt, rfl, clear⟩
  have first : byte = 0 := by
    simp only [Pmm.pageAt, bitmapBase, pageSize] at low
    omega
  subst first
  interval_cases bit <;> cases clear

/-- The pages of the second and third byte of the bitmap are left. -/
theorem bootPmm_plenty : bootPmm.Plenty 16 := by
  refine ⟨(Finset.range 16).image fun page => Pmm.pageAt (1 + page / 8) (page % 8), ?_, ?_⟩
  · rw [Finset.card_image_of_injective, Finset.card_range]
    intro page page' same
    simp only [Pmm.pageAt, bitmapBase, pageSize] at same
    omega
  · intro address member
    obtain ⟨page, below, rfl⟩ := Finset.mem_image.mp member
    rw [Finset.mem_range] at below
    refine ⟨1 + page / 8, page % 8, by simp only [bitmapSize]; omega, by omega, rfl, ?_⟩
    have left : 1 + page / 8 = 1 ∨ 1 + page / 8 = 2 := by omega
    simp only [bootPmm, left, if_true]
    exact BitVec.getLsbD_zero

theorem bootPmm_available_lt {address : Nat} (free : bootPmm.Available address) :
    address < 0x118000 := by
  obtain ⟨byte, bit, -, bitLt, rfl, clear⟩ := free
  simp only [bootPmm] at clear
  split at clear
  · simp only [Pmm.pageAt, bitmapBase, pageSize]
    omega
  · interval_cases bit <;> cases clear

theorem kernelSpace_bootMachine (memory : ByteMemory) :
    KernelSpace (bootMachine memory) (sourceRoot (bootMachine memory) 0) := by
  have root : sourceRoot (bootMachine memory) 0 = 0x101000 := rfl
  rw [root]
  apply @kernelSpace_boot _ memory 0x101000 (by decide) (by decide) rfl
  intro table member
  apply bootPmm_not_available
  simp only [List.mem_cons, List.not_mem_nil, or_false] at member
  omega

theorem newAddressSpace_bootMachine (memory : ByteMemory) :
    ∃ root machine pd, newAddressSpace (bootMachine memory) 0 = some (root, machine) ∧
      tableAt machine.memory root [0, 0] = some pd ∧
      (∀ index, readEntry machine.memory pd index =
        BitVec.ofNat 64 ((index : Nat) * 2 ^ 21 + 0x83)) ∧
      machine.pmm = bootPmm.allocPage.2.allocPage.2.allocPage.2 := by
  apply @newAddressSpace_boot _ memory 0x101000 (by decide) (by decide) rfl rfl
  · intro table member
    apply bootPmm_not_available
    simp only [List.mem_cons, List.not_mem_nil, or_false] at member
    omega
  · change bootPmm.allocPage.1 ≠ 0
    decide
  · change bootPmm.allocPage.2.allocPage.1 ≠ 0
    decide
  · change bootPmm.allocPage.2.allocPage.2.allocPage.1 ≠ 0
    decide

theorem plenty_newAddressSpace :
    bootPmm.allocPage.2.allocPage.2.allocPage.2.Plenty 13 :=
  bootPmm_plenty.allocPage.2.allocPage.2.allocPage.2

end Charis.Memory
