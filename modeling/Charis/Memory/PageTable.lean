import Charis.Lib.ByteMemory
import Charis.Lib.RadixTree

/-!
# x86-64 page tables

The processor's view of a page-table tree: 512 eight-byte entries per table,
four levels, 2 MiB and 1 GiB leaves, and permissions that are combined over all
levels of a walk.  Entries are 64-bit words; the lemmas of this file say which
bits the expressions that the kernel builds entries from have.
-/

namespace Charis.Memory

open Charis.Lib

/-- A page-table entry. -/
abbrev Entry := BitVec 64

instance entries_neZero : NeZero 512 := ⟨by decide⟩

namespace Entry

/-- `PTE_PRESENT`. -/
def present (entry : Entry) : Bool := entry.getLsbD 0

/-- `PTE_WRITABLE`. -/
def writable (entry : Entry) : Bool := entry.getLsbD 1

/-- `PTE_USER`. -/
def user (entry : Entry) : Bool := entry.getLsbD 2

/-- The page-size bit: the entry of a PDPT or a page directory is a leaf. -/
def huge (entry : Entry) : Bool := entry.getLsbD 7

/-- `PTE_NX`. -/
def nx (entry : Entry) : Bool := entry.getLsbD 63

/-- Bits 12 to 51, where the processor reads a physical page address. -/
abbrev frameMask : BitVec 64 := 0x000FFFFFFFFFF000#64

/-- The mask `~0xFFF` with which the kernel clears the flag bits. -/
abbrev pageMask : BitVec 64 := ~~~0xFFF#64

/-- The flag bits that the kernel keeps when it copies or splits an entry. -/
abbrev flagMask : BitVec 64 := 0x8000000000000FFF#64

/-- Address of the 4 KiB page that the processor reads from an entry. -/
def frame (entry : Entry) : Nat := (entry &&& frameMask).toNat

/-- Address of the next table as the kernel computes it. -/
def tableAddress (entry : Entry) : Nat := (entry &&& pageMask).toNat

/-- Address of the 2 MiB page that a page-directory leaf maps. -/
def hugeFrame (entry : Entry) : Nat := (entry &&& 0x000FFFFFFFE00000#64).toNat

/-- Bits 52 to 63 are clear. -/
def HighClear (entry : Entry) : Prop := entry &&& 0xFFF0000000000000#64 = 0#64

/-- The two entries have the same flag bits. -/
def SameFlags (left right : Entry) : Prop := left &&& flagMask = right &&& flagMask

end Entry

open Entry

/-- Entry number `index` of the table at `table`. -/
def readEntry (memory : ByteMemory) (table : Nat) (index : Fin 512) : Entry :=
  BitVec.ofNat 64 (memory.readLE (table + 8 * index) 8)

/-- Store an entry of a table. -/
def writeEntry (memory : ByteMemory) (table : Nat) (index : Fin 512) (entry : Entry) :
    ByteMemory :=
  memory.writeLE (table + 8 * index) 8 entry.toNat

/-- `PML4_INDEX`. -/
def pml4Index (virt : Nat) : Fin 512 := Fin.ofNat 512 (virt / 2 ^ 39)

/-- `PDPT_INDEX`. -/
def pdptIndex (virt : Nat) : Fin 512 := Fin.ofNat 512 (virt / 2 ^ 30)

/-- `PD_INDEX`. -/
def pdIndex (virt : Nat) : Fin 512 := Fin.ofNat 512 (virt / 2 ^ 21)

/-- `PT_INDEX`. -/
def ptIndex (virt : Nat) : Fin 512 := Fin.ofNat 512 (virt / 2 ^ 12)

/-- The indices that lead from the PML4 to the page table of an address. -/
def tablePath (virt : Nat) : List (Fin 512) :=
  [pml4Index virt, pdptIndex virt, pdIndex virt]

theorem length_tablePath (virt : Nat) : (tablePath virt).length = 3 := rfl

/-- Where a page is mapped and what may be done with it. -/
structure Translation where
  frame : Nat
  writable : Bool
  user : Bool
  nx : Bool
  deriving DecidableEq, Repr

/-- An address is canonical when bits 47 to 63 are all equal. -/
def Canonical (virt : Nat) : Prop :=
  virt < 2 ^ 47 ∨ (2 ^ 64 - 2 ^ 47 ≤ virt ∧ virt < 2 ^ 64)

instance (virt : Nat) : Decidable (Canonical virt) := by
  unfold Canonical
  infer_instance

/-- The translation that a walk ends with: the entries it went through have to
agree to writes and to user accesses, and each of them can forbid execution. -/
def combine (frame : Nat) (entries : List Entry) : Translation where
  frame := frame
  writable := entries.all writable
  user := entries.all user
  nx := entries.any nx

/-- The last level of a walk, below the given entries. -/
def walkPageTable (memory : ByteMemory) (pt virt : Nat) (above : List Entry) :
    Option Translation :=
  let pte := readEntry memory pt (ptIndex virt)
  if !present pte then none
  else some (combine (frame pte) (above ++ [pte]))

/-- The page-directory level of a walk. -/
def walkPageDirectory (memory : ByteMemory) (pd virt : Nat) (above : List Entry) :
    Option Translation :=
  let pde := readEntry memory pd (pdIndex virt)
  if !present pde then none
  else if huge pde then
    some (combine (hugeFrame pde + ptIndex virt * 2 ^ 12) (above ++ [pde]))
  else
    walkPageTable memory (frame pde) virt (above ++ [pde])

/-- The PDPT level of a walk. -/
def walkPdpt (memory : ByteMemory) (pdpt virt : Nat) (above : List Entry) :
    Option Translation :=
  let pdpte := readEntry memory pdpt (pdptIndex virt)
  if !present pdpte then none
  else if huge pdpte then
    some (combine ((pdpte &&& 0x000FFFFFC0000000#64).toNat +
      pdIndex virt * 2 ^ 21 + ptIndex virt * 2 ^ 12) (above ++ [pdpte]))
  else
    walkPageDirectory memory (frame pdpte) virt (above ++ [pdpte])

/-- The four-level walk of the processor for the 4 KiB page of an address.  A
page-size bit in the PML4 is reserved and faults. -/
def hardwareWalk (memory : ByteMemory) (root virt : Nat) : Option Translation :=
  let pml4e := readEntry memory root (pml4Index virt)
  if ¬ Canonical virt ∨ present pml4e = false ∨ huge pml4e = true then none
  else walkPdpt memory (frame pml4e) virt [pml4e]

namespace Entry

@[simp] theorem present_zero : present 0#64 = false := rfl

theorem getLsbD_frameMask (bit : Nat) :
    frameMask.getLsbD bit = decide (12 ≤ bit ∧ bit < 52) := by
  by_cases small : bit < 64
  · revert bit
    decide
  · rw [BitVec.getLsbD_of_ge _ _ (by omega)]
    simp only [Bool.false_eq, decide_eq_false_iff_not]
    omega

/-- A page address below `2 ^ 52` consists of frame bits only. -/
theorem ofNat_and_frameMask {address : Nat} (aligned : address % 4096 = 0)
    (small : address < 2 ^ 52) :
    BitVec.ofNat 64 address &&& frameMask = BitVec.ofNat 64 address := by
  apply BitVec.eq_of_getLsbD_eq
  intro bit below
  rw [BitVec.getLsbD_and, getLsbD_frameMask, BitVec.getLsbD_ofNat]
  by_cases inside : 12 ≤ bit ∧ bit < 52
  · simp [inside]
  · have clear : address.testBit bit = false := by
      by_cases low : bit < 12
      · have split : address = 2 ^ 12 * (address / 4096) := by omega
        rw [split, Nat.testBit_two_pow_mul]
        simp [low]
      · apply Nat.testBit_eq_false_of_lt
        calc address < 2 ^ 52 := small
          _ ≤ 2 ^ bit := Nat.pow_le_pow_right (by omega) (by omega)
    simp [clear]

theorem toNat_ofNat_of_lt {address : Nat} (small : address < 2 ^ 52) :
    (BitVec.ofNat 64 address).toNat = address := by
  rw [BitVec.toNat_ofNat, Nat.mod_eq_of_lt (by omega)]

/-- A page address or-ed with bits outside the frame. -/
theorem frame_or {address : Nat} {flags : Entry} (aligned : address % 4096 = 0)
    (small : address < 2 ^ 52) (outside : flags &&& frameMask = 0#64) :
    frame (BitVec.ofNat 64 address ||| flags) = address := by
  rw [frame, BitVec.and_or_distrib_right, ofNat_and_frameMask aligned small, outside,
    BitVec.or_zero, toNat_ofNat_of_lt small]

/-- Outside the frame, a page address contributes no bits. -/
theorem getLsbD_or {address : Nat} {flags : Entry} {bit : Nat}
    (aligned : address % 4096 = 0) (small : address < 2 ^ 52)
    (outside : ¬ (12 ≤ bit ∧ bit < 52)) :
    (BitVec.ofNat 64 address ||| flags).getLsbD bit = flags.getLsbD bit := by
  rw [BitVec.getLsbD_or, ← ofNat_and_frameMask aligned small, BitVec.getLsbD_and,
    getLsbD_frameMask]
  simp [outside]

/-- Below the frame, a page address contributes no bits. -/
theorem getLsbD_or_of_low {address : Nat} {flags : Entry} {bit : Nat}
    (aligned : address % 4096 = 0) (low : bit < 12) :
    (BitVec.ofNat 64 address ||| flags).getLsbD bit = flags.getLsbD bit := by
  have split : address = 2 ^ 12 * (address / 4096) := by omega
  have clear : address.testBit bit = false := by
    rw [split, Nat.testBit_two_pow_mul]
    simp [low]
  simp [BitVec.getLsbD_or, BitVec.getLsbD_ofNat, clear]

/-- Outside the frame, masked flags or-ed to a page address are found again. -/
theorem getLsbD_or_and {address : Nat} {entry mask : Entry} {bit : Nat}
    (aligned : address % 4096 = 0) (small : address < 2 ^ 52)
    (outside : ¬ (12 ≤ bit ∧ bit < 52)) :
    (BitVec.ofNat 64 address ||| (entry &&& mask)).getLsbD bit =
      (entry.getLsbD bit && mask.getLsbD bit) := by
  rw [getLsbD_or aligned small outside, BitVec.getLsbD_and]

theorem frame_or_and {address : Nat} {entry mask : Entry}
    (aligned : address % 4096 = 0) (small : address < 2 ^ 52)
    (outside : mask &&& frameMask = 0#64) :
    frame (BitVec.ofNat 64 address ||| (entry &&& mask)) = address := by
  apply frame_or aligned small
  rw [BitVec.and_assoc, outside, BitVec.and_zero]

theorem highClear_or {address : Nat} {flags : Entry}
    (aligned : address % 4096 = 0) (small : address < 2 ^ 52)
    (clear : HighClear flags) : HighClear (BitVec.ofNat 64 address ||| flags) := by
  have disjoint : frameMask &&& 0xFFF0000000000000#64 = 0#64 := by decide
  rw [HighClear, BitVec.and_or_distrib_right, ← ofNat_and_frameMask aligned small,
    BitVec.and_assoc, disjoint, clear, BitVec.and_zero, BitVec.or_zero]

theorem HighClear.and {entry : Entry} (clear : HighClear entry) (mask : Entry) :
    HighClear (entry &&& mask) := by
  rw [HighClear, BitVec.and_assoc, BitVec.and_comm mask, ← BitVec.and_assoc, clear,
    BitVec.zero_and]

/-- Clearing the low bits of a page address rounds it down. -/
theorem ofNat_and_pageMask (address : Nat) :
    BitVec.ofNat 64 address &&& pageMask = BitVec.ofNat 64 (address / 4096 * 4096) := by
  apply BitVec.eq_of_getLsbD_eq
  intro bit below
  have mask : ∀ bit < 64, pageMask.getLsbD bit = decide (12 ≤ bit) := by decide
  rw [BitVec.getLsbD_and, BitVec.getLsbD_ofNat, BitVec.getLsbD_ofNat, mask bit below,
    Nat.mul_comm, show 4096 = 2 ^ 12 by rfl, Nat.testBit_two_pow_mul,
    Nat.testBit_div_two_pow]
  by_cases high : 12 ≤ bit
  · simp [below, high, show bit - 12 + 12 = bit by omega]
  · simp [high]

/-- Clearing the low bits of an entry without high bits leaves its frame. -/
theorem tableAddress_eq_frame {entry : Entry} (clear : HighClear entry) :
    tableAddress entry = frame entry := by
  have split : pageMask = frameMask ||| 0xFFF0000000000000#64 := by decide
  rw [tableAddress, frame, split, BitVec.and_or_distrib_left, clear, BitVec.or_zero]

theorem frame_aligned (entry : Entry) : frame entry % 4096 = 0 := by
  have low : entry &&& frameMask = (entry >>> 12 &&& 0xFFFFFFFFFF#64) <<< 12 := by
    apply BitVec.eq_of_getLsbD_eq
    intro bit below
    have mask : ∀ bit < 64, frameMask.getLsbD bit =
        (!decide (bit < 12) && (0xFFFFFFFFFF#64).getLsbD (bit - 12)) := by decide
    rw [BitVec.getLsbD_and, mask bit below]
    simp only [BitVec.getLsbD_shiftLeft, BitVec.getLsbD_and, BitVec.getLsbD_ushiftRight,
      below, decide_true, Bool.true_and]
    by_cases high : bit < 12
    · simp [high]
    · simp [high, show 12 + (bit - 12) = bit by omega]
  rw [frame, low, BitVec.toNat_shiftLeft, Nat.shiftLeft_eq]
  omega

theorem tableAddress_eq (entry : Entry) : tableAddress entry = entry.toNat / 4096 * 4096 := by
  have rounded := ofNat_and_pageMask entry.toNat
  rw [BitVec.ofNat_toNat, BitVec.setWidth_eq] at rounded
  have below := entry.isLt
  have small : entry.toNat / 4096 * 4096 < 2 ^ 64 := by omega
  rw [tableAddress, rounded, BitVec.toNat_ofNat, Nat.mod_eq_of_lt small]

theorem tableAddress_aligned (entry : Entry) : tableAddress entry % 4096 = 0 := by
  rw [tableAddress_eq]
  exact Nat.mul_mod_left _ _

theorem hugeFrame_add_aligned (entry : Entry) (index : Nat) :
    (hugeFrame entry + index * 4096) % 4096 = 0 := by
  have nested : entry &&& 0x000FFFFFFFE00000#64 =
      (entry &&& 0x000FFFFFFFE00000#64) &&& frameMask := by
    rw [BitVec.and_assoc]
    rfl
  have aligned : hugeFrame entry % 4096 = 0 := by
    rw [hugeFrame, nested]
    exact frame_aligned _
  omega

theorem hugeFrame_add_lt (entry : Entry) (index : Fin 512) :
    hugeFrame entry + index * 4096 < 2 ^ 52 := by
  have bound : (entry &&& 0x000FFFFFFFE00000#64).toNat ≤
      (0x000FFFFFFFE00000#64).toNat := by
    rw [BitVec.toNat_and]
    exact Nat.and_le_right
  have value : (0x000FFFFFFFE00000#64).toNat = 2 ^ 52 - 2 ^ 21 := by decide
  have below := index.isLt
  unfold hugeFrame
  omega

theorem frame_lt (entry : Entry) : frame entry < 2 ^ 52 := by
  have bound : (entry &&& frameMask).toNat ≤ frameMask.toNat := by
    rw [BitVec.toNat_and]
    exact Nat.and_le_right
  have value : frameMask.toNat = 2 ^ 52 - 4096 := by decide
  unfold frame
  omega

section OrUser

variable (entry : Entry)

@[simp] theorem present_or_user : present (entry ||| 4#64) = present entry := by
  simp [present]

@[simp] theorem writable_or_user : writable (entry ||| 4#64) = writable entry := by
  simp [writable]

@[simp] theorem huge_or_user : huge (entry ||| 4#64) = huge entry := by
  simp [huge]

@[simp] theorem user_or_user : user (entry ||| 4#64) = true := by
  simp [user]

@[simp] theorem tableAddress_or_user :
    tableAddress (entry ||| 4#64) = tableAddress entry := by
  rw [tableAddress, BitVec.and_or_distrib_right,
    show 4#64 &&& pageMask = 0#64 by decide, BitVec.or_zero, tableAddress]

theorem HighClear.or_user {entry : Entry} (clear : HighClear entry) :
    HighClear (entry ||| 4#64) := by
  rw [HighClear, BitVec.and_or_distrib_right, clear]
  decide

end OrUser

section SameFlags

variable {left right : Entry}

/-- Equal flag bits are equal bit by bit. -/
theorem SameFlags.getLsbD (same : SameFlags left right) {bit : Nat}
    (inside : flagMask.getLsbD bit = true) : left.getLsbD bit = right.getLsbD bit := by
  have equal := congrArg (fun word : BitVec 64 => word.getLsbD bit) same
  simpa [BitVec.getLsbD_and, inside] using equal

theorem SameFlags.present (same : SameFlags left right) : left.present = right.present :=
  same.getLsbD (by decide)

theorem SameFlags.writable (same : SameFlags left right) :
    left.writable = right.writable :=
  same.getLsbD (by decide)

theorem SameFlags.user (same : SameFlags left right) : left.user = right.user :=
  same.getLsbD (by decide)

theorem SameFlags.huge (same : SameFlags left right) : left.huge = right.huge :=
  same.getLsbD (by decide)

end SameFlags

end Entry

section Tables

variable {memory left right : ByteMemory} {table table' : Nat} {index index' : Fin 512}
  {entry : Entry}

@[simp] theorem readEntry_writeEntry_self :
    readEntry (writeEntry memory table index entry) table index = entry := by
  have small : entry.toNat % 256 ^ 8 = entry.toNat :=
    Nat.mod_eq_of_lt (lt_of_lt_of_le entry.isLt (by norm_num))
  rw [readEntry, writeEntry, ByteMemory.readLE_writeLE_self, small, BitVec.ofNat_toNat,
    BitVec.setWidth_eq]

theorem readEntry_congr
    (agree : ByteMemory.AgreeOn left right table (table + 4096)) :
    readEntry left table index = readEntry right table index := by
  have below := index.isLt
  rw [readEntry, readEntry,
    ByteMemory.readLE_congr (agree.mono (by omega) (by omega))]

/-- Tables at different page addresses do not overlap, nor do two slots of one
table. -/
theorem readEntry_writeEntry_of_ne (aligned : table % 4096 = 0)
    (aligned' : table' % 4096 = 0) (different : (table', index') ≠ (table, index)) :
    readEntry (writeEntry memory table index entry) table' index' =
      readEntry memory table' index' := by
  have below := index.isLt
  have below' := index'.isLt
  rw [readEntry, readEntry, writeEntry, ByteMemory.readLE_writeLE_of_apart]
  by_cases sameTable : table' = table
  · have differentIndex : (index' : Nat) ≠ index := by
      intro sameIndex
      exact different (by rw [sameTable, Fin.ext sameIndex])
    omega
  · omega

theorem agreeOn_writeEntry {low high : Nat}
    (apart : high ≤ table ∨ table + 4096 ≤ low) :
    ByteMemory.AgreeOn (writeEntry memory table index entry) memory low high := by
  have below := index.isLt
  exact ByteMemory.agreeOn_writeLE (by omega)

theorem readEntry_fill_zero :
    readEntry (memory.fill table 4096 0) table index = 0#64 := by
  have below := index.isLt
  rw [readEntry, ByteMemory.readLE_zero_of_bytes]
  intro offset small
  exact ByteMemory.fill_of_inside (by omega) (by omega)

end Tables

/-- Store the entries that `entries` lists for the given slots of a table, in the
order of the list. -/
def fillTable (memory : ByteMemory) (table : Nat) (entries : Fin 512 → Entry)
    (slots : List (Fin 512)) : ByteMemory :=
  slots.foldl (fun memory index => writeEntry memory table index (entries index)) memory

section FillTable

variable {memory : ByteMemory} {table : Nat} {entries : Fin 512 → Entry}

theorem readEntry_fillTable (aligned : table % 4096 = 0) (slots : List (Fin 512))
    (index : Fin 512) :
    readEntry (fillTable memory table entries slots) table index =
      if index ∈ slots then entries index else readEntry memory table index := by
  induction slots generalizing memory with
  | nil => rfl
  | cons slot slots ih =>
  rw [fillTable, List.foldl_cons]
  refine ih.trans ?_
  by_cases later : index ∈ slots
  · simp [later]
  · by_cases here : index = slot
    · simp [here]
    · rw [if_neg later, if_neg (by simp [here, later])]
      exact readEntry_writeEntry_of_ne aligned aligned (by simp [here])

theorem agreeOn_fillTable {slots : List (Fin 512)} {low high : Nat}
    (apart : high ≤ table ∨ table + 4096 ≤ low) :
    ByteMemory.AgreeOn (fillTable memory table entries slots) memory low high := by
  induction slots generalizing memory with
  | nil => exact ByteMemory.AgreeOn.refl _ _ _
  | cons slot slots ih => exact ih.trans (agreeOn_writeEntry apart)

end FillTable

end Charis.Memory
