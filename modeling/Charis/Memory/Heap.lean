import Charis.Lib.ByteMemory

/-!
# The kernel heap

Embedding of `kernel/heap.c`: a doubly linked list of blocks in address order,
first-fit allocation that always splits, and a constant-time free that merges
with both neighbours.  The block headers live in memory, so a header is four
fields read from the bytes at its address, and every assignment of the source
is one store.
-/

namespace Charis.Memory

open Lib

/-- One past the largest value of a 64-bit word. -/
abbrev word64 : Nat := 2 ^ 64

/-- `sizeof(heap_block_t)`: two pointers, a `usize` and a padded `bool`. -/
abbrev headerSize : Nat := 32

/-- The fields of `heap_block_t`. -/
structure HeapBlock where
  size : Nat
  next : Nat
  prev : Nat
  free : Bool
  deriving DecidableEq, Repr

namespace HeapBlock

/-- The block header stored at `address`. -/
def read (memory : ByteMemory) (address : Nat) : HeapBlock where
  size := memory.readLE address 8
  next := memory.readLE (address + 8) 8
  prev := memory.readLE (address + 16) 8
  free := memory (address + 24) != 0

def setSize (memory : ByteMemory) (address value : Nat) : ByteMemory :=
  memory.writeLE address 8 value

def setNext (memory : ByteMemory) (address value : Nat) : ByteMemory :=
  memory.writeLE (address + 8) 8 value

def setPrev (memory : ByteMemory) (address value : Nat) : ByteMemory :=
  memory.writeLE (address + 16) 8 value

def setFree (memory : ByteMemory) (address : Nat) (value : Bool) : ByteMemory :=
  memory.writeByte (address + 24) (if value then 1 else 0)

variable {memory : ByteMemory} {address value : Nat}

theorem read_congr {left right : ByteMemory}
    (agree : ByteMemory.AgreeOn left right address (address + 32)) :
    read left address = read right address := by
  simp only [read, HeapBlock.mk.injEq]
  refine ⟨?_, ?_, ?_, ?_⟩
  · exact ByteMemory.readLE_congr (agree.mono (by omega) (by omega))
  · exact ByteMemory.readLE_congr (agree.mono (by omega) (by omega))
  · exact ByteMemory.readLE_congr (agree.mono (by omega) (by omega))
  · rw [agree (address + 24) (by omega) (by omega)]

@[simp] theorem read_setSize_self (fits : value < 2 ^ 64) :
    read (setSize memory address value) address =
      { read memory address with size := value } := by
  simp only [read, setSize, HeapBlock.mk.injEq]
  refine ⟨?_, ?_, ?_, ?_⟩
  · rw [ByteMemory.readLE_writeLE_self, Nat.mod_eq_of_lt (by omega)]
  · exact ByteMemory.readLE_writeLE_of_apart (by omega)
  · exact ByteMemory.readLE_writeLE_of_apart (by omega)
  · rw [ByteMemory.writeLE_of_outside (by omega)]

@[simp] theorem read_setNext_self (fits : value < 2 ^ 64) :
    read (setNext memory address value) address =
      { read memory address with next := value } := by
  simp only [read, setNext, HeapBlock.mk.injEq]
  refine ⟨?_, ?_, ?_, ?_⟩
  · exact ByteMemory.readLE_writeLE_of_apart (by omega)
  · rw [ByteMemory.readLE_writeLE_self, Nat.mod_eq_of_lt (by omega)]
  · exact ByteMemory.readLE_writeLE_of_apart (by omega)
  · rw [ByteMemory.writeLE_of_outside (by omega)]

@[simp] theorem read_setPrev_self (fits : value < 2 ^ 64) :
    read (setPrev memory address value) address =
      { read memory address with prev := value } := by
  simp only [read, setPrev, HeapBlock.mk.injEq]
  refine ⟨?_, ?_, ?_, ?_⟩
  · exact ByteMemory.readLE_writeLE_of_apart (by omega)
  · exact ByteMemory.readLE_writeLE_of_apart (by omega)
  · rw [ByteMemory.readLE_writeLE_self, Nat.mod_eq_of_lt (by omega)]
  · rw [ByteMemory.writeLE_of_outside (by omega)]

@[simp] theorem read_setFree_self (value : Bool) :
    read (setFree memory address value) address =
      { read memory address with free := value } := by
  simp only [read, setFree, HeapBlock.mk.injEq]
  refine ⟨?_, ?_, ?_, ?_⟩
  · exact ByteMemory.readLE_congr (ByteMemory.agreeOn_writeByte (by omega))
  · exact ByteMemory.readLE_congr (ByteMemory.agreeOn_writeByte (by omega))
  · exact ByteMemory.readLE_congr (ByteMemory.agreeOn_writeByte (by omega))
  · cases value <;> simp

/-- A field store only touches the header it is addressed to. -/
theorem agreeOn_setSize {low high : Nat}
    (apart : high ≤ address ∨ address + 32 ≤ low) :
    ByteMemory.AgreeOn (setSize memory address value) memory low high :=
  ByteMemory.agreeOn_writeLE (by omega)

theorem agreeOn_setNext {low high : Nat}
    (apart : high ≤ address ∨ address + 32 ≤ low) :
    ByteMemory.AgreeOn (setNext memory address value) memory low high :=
  ByteMemory.agreeOn_writeLE (by omega)

theorem agreeOn_setPrev {low high : Nat}
    (apart : high ≤ address ∨ address + 32 ≤ low) :
    ByteMemory.AgreeOn (setPrev memory address value) memory low high :=
  ByteMemory.agreeOn_writeLE (by omega)

theorem agreeOn_setFree {low high : Nat} {value : Bool}
    (apart : high ≤ address ∨ address + 32 ≤ low) :
    ByteMemory.AgreeOn (setFree memory address value) memory low high :=
  ByteMemory.agreeOn_writeByte (by omega)

end HeapBlock

/-- `if (next) next->prev = value`, which the source writes three times. -/
def setPrevOfNext (memory : ByteMemory) (next value : Nat) : ByteMemory :=
  if next ≠ 0 then HeapBlock.setPrev memory next value else memory

/-- The static variables of `heap.c` together with the memory they point into.
A null `head` is the state before `heap_init`. -/
structure Heap where
  memory : ByteMemory
  head : Nat
  start : Nat
  size : Nat

/-- `heap_init(start, size)`. -/
def heapInit (memory : ByteMemory) (start size : Nat) : Heap :=
  let memory := HeapBlock.setSize memory start ((size + word64 - headerSize) % word64)
  let memory := HeapBlock.setNext memory start 0
  let memory := HeapBlock.setPrev memory start 0
  let memory := HeapBlock.setFree memory start true
  { memory, head := start, start, size }

/-- `(size + 15) & ~15` on a 64-bit `usize`. -/
def alignUp16 (size : Nat) : Nat := (size + 15) % word64 / 16 * 16

/-- The body of the `kmalloc` loop once a block fits: carve `aligned` bytes off
the front of the free block `curr` and link the remainder behind it. -/
def kmallocSplit (memory : ByteMemory) (curr aligned : Nat) : ByteMemory :=
  let newBlock := (curr + headerSize + aligned) % word64
  let block := HeapBlock.read memory curr
  let memory := HeapBlock.setSize memory newBlock
    ((block.size + word64 + word64 - aligned - headerSize) % word64)
  let memory := HeapBlock.setNext memory newBlock (HeapBlock.read memory curr).next
  let memory := HeapBlock.setPrev memory newBlock curr
  let memory := HeapBlock.setFree memory newBlock true
  let memory := setPrevOfNext memory (HeapBlock.read memory curr).next newBlock
  let memory := HeapBlock.setSize memory curr aligned
  let memory := HeapBlock.setNext memory curr newBlock
  HeapBlock.setFree memory curr false

/-- `while (curr)` of `kmalloc`.  The `fuel` bounds the number of blocks
visited; a block list that tiles its region is shorter than the region. -/
def kmallocLoop (memory : ByteMemory) (aligned : Nat) : Nat → Nat → Nat × ByteMemory
  | 0, _ => (0, memory)
  | fuel + 1, curr =>
      if curr = 0 then
        (0, memory)
      else
        let block := HeapBlock.read memory curr
        if block.free ∧ (aligned + headerSize) % word64 ≤ block.size then
          ((curr + headerSize) % word64, kmallocSplit memory curr aligned)
        else
          kmallocLoop memory aligned fuel block.next

/-- `kmalloc(size)`: the returned pointer, null on failure. -/
def kmalloc (heap : Heap) (size : Nat) : Nat × Heap :=
  if heap.head = 0 ∨ size = 0 then
    (0, heap)
  else
    let result := kmallocLoop heap.memory (alignUp16 size) (heap.size + 1) heap.head
    (result.1, { heap with memory := result.2 })

/-- The `if` of `kfree` that swallows the following block when it is free. -/
def kfreeMergeNext (memory : ByteMemory) (block : Nat) : ByteMemory :=
  let next := (HeapBlock.read memory block).next
  if next ≠ 0 ∧ (HeapBlock.read memory next).free then
    let memory := HeapBlock.setSize memory block
      (((HeapBlock.read memory block).size + headerSize +
        (HeapBlock.read memory next).size) % word64)
    let memory := HeapBlock.setNext memory block (HeapBlock.read memory next).next
    setPrevOfNext memory (HeapBlock.read memory block).next block
  else
    memory

/-- The `if` of `kfree` that lets the preceding block swallow this one. -/
def kfreeMergePrev (memory : ByteMemory) (block : Nat) : ByteMemory :=
  let prev := (HeapBlock.read memory block).prev
  if prev ≠ 0 ∧ (HeapBlock.read memory prev).free then
    let memory := HeapBlock.setSize memory prev
      (((HeapBlock.read memory prev).size + headerSize +
        (HeapBlock.read memory block).size) % word64)
    let memory := HeapBlock.setNext memory prev (HeapBlock.read memory block).next
    setPrevOfNext memory (HeapBlock.read memory block).next prev
  else
    memory

/-- `kfree(ptr)`. -/
def kfree (heap : Heap) (ptr : Nat) : Heap :=
  if ptr = 0 ∨ heap.head = 0 then
    heap
  else
    let block := (ptr + word64 - headerSize) % word64
    let memory := HeapBlock.setFree heap.memory block true
    let memory := kfreeMergeNext memory block
    let memory := kfreeMergePrev memory block
    { heap with memory }

end Charis.Memory
