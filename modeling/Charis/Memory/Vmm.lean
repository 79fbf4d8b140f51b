import Charis.Memory.Pmm
import Charis.Memory.PageTable

/-!
# The virtual memory manager

Page-table trees are edited in place, and new tables come from the page allocator.
A failed call keeps the tables it has already linked.  The kernel works at physical
addresses: what it edits has to be `InPlace` in the tree that is current.  The
flushes of the translation caches have no counterpart here: a walk always reads the
tables in memory.
-/

namespace Charis.Memory

open Charis.Lib
open Entry

/-- What the memory manager works on: physical memory, the page allocator and
the page-table root that the processor uses. -/
structure Machine where
  memory : ByteMemory
  pmm : Pmm
  cr3 : Nat

/-- How the kernel gets from the address that it accesses to a physical one. -/
abbrev Reach := Machine → Nat → Nat

/-- An access goes through the page tables that are current.  Where nothing is mapped the
processor faults, and the result means nothing. -/
def paged : Reach := fun machine address =>
  match hardwareWalk machine.memory machine.cr3 address with
  | some translation => translation.frame + address % pageSize
  | none => address

/-- The identity page of a physical page is in its place in a tree.  That it may be
read-only does not matter to the kernel, which runs without write protection. -/
def InPlace (memory : ByteMemory) (root page : Nat) : Prop :=
  (hardwareWalk memory root page).map Translation.frame = some page

/-- The entry that links a new table: present, writable and with the given user
bit. -/
def tableEntry (phys : Nat) (flags : Entry) : Entry :=
  (BitVec.ofNat 64 phys &&& pageMask) ||| 1#64 ||| (flags &&& 4#64) ||| 2#64

/-- The entry that maps a 4 KiB page. -/
def leafEntry (phys : Nat) (flags : Entry) : Entry :=
  (BitVec.ofNat 64 phys &&& pageMask) ||| 1#64 ||| (flags &&& 0x8000000000000006#64)

/-- Entry `index` of the table that a 2 MiB leaf is split into. -/
def splitEntry (pde : Entry) (index : Fin 512) : Entry :=
  BitVec.ofNat 64 (hugeFrame pde + index * pageSize) |||
    (pde &&& flagMask &&& ~~~0x80#64)

/-- The entry that links the table of a split 2 MiB leaf. -/
def splitLink (phys : Nat) (pde : Entry) : Entry :=
  BitVec.ofNat 64 phys ||| (pde &&& flagMask &&& ~~~0x80#64)

/-- The entry that links the copy of a table. -/
def copyLink (phys : Nat) (entry : Entry) : Entry :=
  BitVec.ofNat 64 phys ||| (entry &&& flagMask)

/-- `get_or_create_table`: make sure that a slot is in use, linking a zeroed
table when it is not. -/
def getOrCreateTable (machine : Machine) (parent : Nat) (index : Fin 512)
    (flags : Entry) : Bool × Machine :=
  if present (readEntry machine.memory parent index) then
    (true, machine)
  else
    let (phys, pmm) := machine.pmm.allocPage
    if phys = 0 then
      (false, { machine with pmm })
    else
      let cleared := machine.memory.fill phys pageSize 0
      (true, { machine with
        memory := writeEntry cleared parent index (tableEntry phys flags), pmm })

/-- The branch of `vmm_map_page_pml4` that replaces a 2 MiB leaf by a table of
512 pages; it returns the entry that now links the table. -/
def splitHugePage (machine : Machine) (pd : Nat) (index : Fin 512) (pde : Entry) :
    Option Entry × Machine :=
  let (phys, pmm) := machine.pmm.allocPage
  if phys = 0 then
    (none, { machine with pmm })
  else
    let filled := fillTable machine.memory phys (splitEntry pde) (List.finRange 512)
    (some (splitLink phys pde), { machine with
      memory := writeEntry filled pd index (splitLink phys pde), pmm })

/-- Set the user bit of an entry. -/
def widenUser (memory : ByteMemory) (table : Nat) (index : Fin 512) : ByteMemory :=
  writeEntry memory table index (readEntry memory table index ||| 4#64)

/-- The end of `vmm_map_page_pml4`, once the page table `pt` is known: the
entries above are opened to user accesses when the page is, and the page is
entered. -/
def mapLeaf (machine : Machine) (pml4 pdpt pd pt virt phys : Nat) (flags : Entry) :
    Machine :=
  let opened :=
    if user flags then
      widenUser (widenUser (widenUser machine.memory pml4 (pml4Index virt))
        pdpt (pdptIndex virt)) pd (pdIndex virt)
    else
      machine.memory
  { machine with memory := writeEntry opened pt (ptIndex virt) (leafEntry phys flags) }

/-- `vmm_map_page_pml4`. -/
def mapPagePml4 (machine : Machine) (pml4 virt phys : Nat) (flags : Entry) :
    Bool × Machine :=
  if pml4 = 0 then (false, machine)
  else
    match getOrCreateTable machine pml4 (pml4Index virt) 0 with
    | (false, machine) => (false, machine)
    | (true, machine) =>
        let pdpt := tableAddress (readEntry machine.memory pml4 (pml4Index virt))
        match getOrCreateTable machine pdpt (pdptIndex virt) 0 with
        | (false, machine) => (false, machine)
        | (true, machine) =>
            let pd := tableAddress (readEntry machine.memory pdpt (pdptIndex virt))
            match getOrCreateTable machine pd (pdIndex virt) 0 with
            | (false, machine) => (false, machine)
            | (true, machine) =>
                let pde := readEntry machine.memory pd (pdIndex virt)
                if huge pde then
                  match splitHugePage machine pd (pdIndex virt) pde with
                  | (none, machine) => (false, machine)
                  | (some pde, machine) =>
                      (true,
                        mapLeaf machine pml4 pdpt pd (tableAddress pde) virt phys flags)
                else
                  (true,
                    mapLeaf machine pml4 pdpt pd (tableAddress pde) virt phys flags)

/-- `vmm_unmap_page_pml4`: the address of the page that was mapped, or zero. -/
def unmapPagePml4 (machine : Machine) (pml4 virt : Nat) : Nat × Machine :=
  if pml4 = 0 then (0, machine)
  else
    let pml4e := readEntry machine.memory pml4 (pml4Index virt)
    if !present pml4e then (0, machine)
    else
      let pdpt := tableAddress pml4e
      let pdpte := readEntry machine.memory pdpt (pdptIndex virt)
      if !present pdpte || huge pdpte then (0, machine)
      else
        let pd := tableAddress pdpte
        let pde := readEntry machine.memory pd (pdIndex virt)
        if !present pde || huge pde then (0, machine)
        else
          let pt := tableAddress pde
          let pte := readEntry machine.memory pt (ptIndex virt)
          if !present pte then (0, machine)
          else
            (frame pte, { machine with
              memory := writeEntry machine.memory pt (ptIndex virt) 0#64 })

/-- One level of `vmm_walk`: the next table, created on demand, and then entered at its
physical address.  The page-size bit is not looked at. -/
def walkLevel (machine : Machine) (table : Nat) (index : Fin 512) (create : Bool)
    (reach : Reach := fun _ address => address) : Option Nat × Machine :=
  let entry := readEntry machine.memory (reach machine table) index
  if present entry then (some (tableAddress entry), machine)
  else if !create then (none, machine)
  else
    match getOrCreateTable machine table index 0 with
    | (false, machine) => (none, machine)
    | (true, machine) =>
        (some (tableAddress (readEntry machine.memory (reach machine table) index)), machine)

/-- `vmm_walk`: the address of the page-table entry of a virtual address. -/
def walk (machine : Machine) (pml4 virt : Nat) (create : Bool)
    (reach : Reach := fun _ address => address) : Option Nat × Machine :=
  match walkLevel machine pml4 (pml4Index virt) create reach with
  | (none, machine) => (none, machine)
  | (some pdpt, machine) =>
      match walkLevel machine pdpt (pdptIndex virt) create reach with
      | (none, machine) => (none, machine)
      | (some pd, machine) =>
          match walkLevel machine pd (pdIndex virt) create reach with
          | (none, machine) => (none, machine)
          | (some pt, machine) => (some (pt + 8 * ptIndex virt), machine)

/-- `vmm_create_address_space`: the address of an empty PML4, or zero. -/
def createAddressSpace (machine : Machine) : Nat × Machine :=
  let (phys, pmm) := machine.pmm.allocPage
  if phys = 0 then (0, { machine with pmm })
  else (phys, { machine with memory := machine.memory.fill phys pageSize 0, pmm })

/-- Copy the listed slots of one table to another. -/
def copyEntries (memory : ByteMemory) (target source : Nat) (slots : List (Fin 512)) :
    ByteMemory :=
  slots.foldl (fun memory index =>
    writeEntry memory target index (readEntry memory source index)) memory

/-- Run a loop body over a list of slots until it fails. -/
def forSlots (body : Machine → Fin 512 → Bool × Machine) :
    Machine → List (Fin 512) → Bool × Machine
  | machine, [] => (true, machine)
  | machine, index :: slots =>
      match body machine index with
      | (false, machine) => (false, machine)
      | (true, machine) => forSlots body machine slots

/-- Give slot `index` of `parent` a private copy of the table that `entry`
links; the address of the copy is returned. -/
def cloneTable (machine : Machine) (parent : Nat) (index : Fin 512) (entry : Entry) :
    Option Nat × Machine :=
  let (phys, pmm) := machine.pmm.allocPage
  if phys = 0 then (none, { machine with pmm })
  else
    let copied :=
      copyEntries machine.memory phys (tableAddress entry) (List.finRange 512)
    (some phys,
      { machine with memory := writeEntry copied parent index (copyLink phys entry), pmm })

/-- The innermost loop body of `vmm_copy_kernel_mappings`: one page-directory
slot. -/
def clonePageTable (sourcePd targetPd : Nat) (machine : Machine) (index : Fin 512) :
    Bool × Machine :=
  let pde := readEntry machine.memory sourcePd index
  if !present pde || huge pde then (true, machine)
  else
    match cloneTable machine targetPd index pde with
    | (none, machine) => (false, machine)
    | (some _, machine) => (true, machine)

/-- The outer loop body of `vmm_copy_kernel_mappings`: one PDPT slot and the page
directory below it. -/
def clonePageDirectory (sourcePdpt targetPdpt : Nat) (machine : Machine)
    (index : Fin 512) : Bool × Machine :=
  let pdpte := readEntry machine.memory sourcePdpt index
  if !present pdpte || huge pdpte then (true, machine)
  else
    match cloneTable machine targetPdpt index pdpte with
    | (none, machine) => (false, machine)
    | (some pd, machine) =>
        forSlots (clonePageTable (tableAddress pdpte) pd) machine (List.finRange 512)

/-- `vmm_copy_kernel_mappings`: share the upper half of the source and copy the
tables below its first PML4 entry.  A source of zero stands for the current
root. -/
def copyKernelMappings (machine : Machine) (target source : Nat) : Bool × Machine :=
  if target = 0 then (false, machine)
  else
    let source := if source = 0 then machine.cr3 else source
    let upper := (List.finRange 512).filter fun index => 256 ≤ index.val
    let shared := copyEntries machine.memory target source upper
    let pml4e := readEntry shared source 0
    if !present pml4e then (true, { machine with memory := shared })
    else
      let (pdpt, pmm) := machine.pmm.allocPage
      if pdpt = 0 then (false, { machine with memory := shared, pmm })
      else
        let copied := copyEntries shared pdpt (tableAddress pml4e) (List.finRange 512)
        match forSlots (clonePageDirectory (tableAddress pml4e) pdpt)
            { machine with memory := copied, pmm } (List.finRange 512) with
        | (false, machine) => (false, machine)
        | (true, machine) =>
            (true, { machine with
              memory := writeEntry machine.memory target 0 (copyLink pdpt pml4e) })

section Entries

variable {phys : Nat} {entry flags : Entry}

theorem tableEntry_eq (aligned : phys % 4096 = 0) :
    tableEntry phys flags =
      BitVec.ofNat 64 phys ||| (1#64 ||| (flags &&& 4#64) ||| 2#64) := by
  rw [tableEntry, ofNat_and_pageMask, Nat.div_mul_cancel (Nat.dvd_of_mod_eq_zero aligned),
    BitVec.or_assoc, BitVec.or_assoc, BitVec.or_assoc]

theorem leafEntry_eq (phys : Nat) (flags : Entry) :
    leafEntry phys flags =
      BitVec.ofNat 64 (phys / 4096 * 4096) |||
        (1#64 ||| (flags &&& 0x8000000000000006#64)) := by
  rw [leafEntry, ofNat_and_pageMask, BitVec.or_assoc]

theorem splitLink_eq (phys : Nat) (entry : Entry) :
    splitLink phys entry =
      BitVec.ofNat 64 phys ||| (entry &&& (flagMask &&& ~~~0x80#64)) := by
  rw [splitLink, BitVec.and_assoc]

theorem splitEntry_eq (entry : Entry) (index : Fin 512) :
    splitEntry entry index = splitLink (hugeFrame entry + index * 4096) entry := rfl

section Table

variable (aligned : phys % 4096 = 0) (small : phys < 2 ^ 52)

include aligned small

theorem frame_tableEntry : frame (tableEntry phys flags) = phys := by
  rw [tableEntry_eq aligned]
  apply frame_or aligned small
  rw [BitVec.and_or_distrib_right, BitVec.and_or_distrib_right, BitVec.and_assoc]
  simp [frameMask]

theorem highClear_tableEntry : HighClear (tableEntry phys flags) := by
  rw [tableEntry_eq aligned]
  apply highClear_or aligned small
  rw [HighClear, BitVec.and_or_distrib_right, BitVec.and_or_distrib_right,
    BitVec.and_assoc]
  simp

theorem present_tableEntry : present (tableEntry phys flags) = true := by
  rw [tableEntry_eq aligned, present, getLsbD_or aligned small (by decide)]
  simp

theorem writable_tableEntry : writable (tableEntry phys flags) = true := by
  rw [tableEntry_eq aligned, writable, getLsbD_or aligned small (by decide)]
  simp

theorem user_tableEntry : user (tableEntry phys flags) = user flags := by
  rw [tableEntry_eq aligned, user, getLsbD_or aligned small (by decide)]
  simp [user]

theorem huge_tableEntry : huge (tableEntry phys flags) = false := by
  rw [tableEntry_eq aligned, huge, getLsbD_or aligned small (by decide)]
  simp

theorem frame_splitLink : frame (splitLink phys entry) = phys := by
  rw [splitLink_eq]
  exact frame_or_and aligned small (by decide)

theorem highClear_splitLink (clear : HighClear entry) :
    HighClear (splitLink phys entry) := by
  rw [splitLink_eq]
  exact highClear_or aligned small (clear.and _)

theorem huge_splitLink : huge (splitLink phys entry) = false := by
  rw [splitLink_eq, huge, getLsbD_or_and aligned small (by decide),
    show (flagMask &&& ~~~0x80#64).getLsbD 7 = false by decide, Bool.and_false]

/-- A split keeps every flag but the page-size bit. -/
theorem getLsbD_splitLink {bit : Nat}
    (inside : (flagMask &&& ~~~0x80#64).getLsbD bit = true)
    (outside : ¬ (12 ≤ bit ∧ bit < 52)) :
    (splitLink phys entry).getLsbD bit = entry.getLsbD bit := by
  rw [splitLink_eq, getLsbD_or_and aligned small outside, inside, Bool.and_true]

theorem frame_copyLink : frame (copyLink phys entry) = phys :=
  frame_or_and aligned small (by decide)

theorem highClear_copyLink (clear : HighClear entry) : HighClear (copyLink phys entry) :=
  highClear_or aligned small (clear.and _)

theorem sameFlags_copyLink : SameFlags (copyLink phys entry) entry := by
  have disjoint : frameMask &&& flagMask = 0#64 := by decide
  rw [SameFlags, copyLink, BitVec.and_or_distrib_right, BitVec.and_assoc,
    BitVec.and_self, ← ofNat_and_frameMask aligned small, BitVec.and_assoc, disjoint,
    BitVec.and_zero, BitVec.zero_or]

end Table

/-- The low flags of a mapped page, wherever it lies. -/
theorem getLsbD_leafEntry_of_low {bit : Nat} (low : bit < 12) :
    (leafEntry phys flags).getLsbD bit =
      ((1#64).getLsbD bit || (flags.getLsbD bit &&
        (0x8000000000000006#64).getLsbD bit)) := by
  rw [leafEntry_eq, getLsbD_or_of_low (by omega) low, BitVec.getLsbD_or,
    BitVec.getLsbD_and]

theorem present_leafEntry : present (leafEntry phys flags) = true := by
  rw [present, getLsbD_leafEntry_of_low (by decide)]
  simp

theorem user_leafEntry : user (leafEntry phys flags) = user flags := by
  rw [user, getLsbD_leafEntry_of_low (by decide)]
  simp [user]

section Leaf

variable (small : phys < 2 ^ 52)

include small

theorem frame_leafEntry : frame (leafEntry phys flags) = phys / 4096 * 4096 := by
  rw [leafEntry_eq]
  apply frame_or (by omega) (by omega)
  rw [BitVec.and_or_distrib_right, BitVec.and_assoc]
  simp [frameMask]

/-- The flags of a mapped page: it is present and has the given permissions. -/
theorem getLsbD_leafEntry {bit : Nat} (outside : ¬ (12 ≤ bit ∧ bit < 52)) :
    (leafEntry phys flags).getLsbD bit =
      ((1#64).getLsbD bit || (flags.getLsbD bit &&
        (0x8000000000000006#64).getLsbD bit)) := by
  rw [leafEntry_eq, getLsbD_or (by omega) (by omega) outside, BitVec.getLsbD_or,
    BitVec.getLsbD_and]

end Leaf

/-- The pages of a split leaf are translated as the leaf was. -/
theorem combine_splitEntry (index : Fin 512) :
    combine (frame (splitEntry entry index)) [splitEntry entry index] =
      combine (hugeFrame entry + index * 2 ^ 12) [entry] := by
  have aligned := hugeFrame_add_aligned entry index
  have small := hugeFrame_add_lt entry index
  rw [splitEntry_eq, frame_splitLink aligned small]
  simp only [combine, List.all_cons, List.all_nil, List.any_cons, List.any_nil, writable,
    user, nx]
  rw [getLsbD_splitLink aligned small (by decide) (by decide),
    getLsbD_splitLink aligned small (by decide) (by decide),
    getLsbD_splitLink aligned small (by decide) (by decide)]
  rfl

theorem present_splitEntry (index : Fin 512) :
    present (splitEntry entry index) = present entry := by
  rw [splitEntry_eq, present, getLsbD_splitLink (hugeFrame_add_aligned entry index)
    (hugeFrame_add_lt entry index) (by decide) (by decide), present]

theorem user_splitEntry (index : Fin 512) :
    user (splitEntry entry index) = user entry := by
  rw [splitEntry_eq, user, getLsbD_splitLink (hugeFrame_add_aligned entry index)
    (hugeFrame_add_lt entry index) (by decide) (by decide), user]

end Entries

end Charis.Memory
