import Charis.Memory.Heap

/-!
# The block list as a tiling of the heap region

The headers of a well-formed heap are determined by the sizes and free flags of
its blocks in address order: each header ends where the block's bytes start, and
each block ends where the next header starts.  `Chain` relates such a list of
cells to the headers in memory, and the operations of `heap.c` are shown to act
on the list of cells: `kmallocSplit` replaces one cell by two and the two merge
steps of `kfree` replace two cells by one.
-/

namespace Charis.Memory

open Lib

/-- One block without its address: the payload size and the free flag. -/
structure Cell where
  size : Nat
  free : Bool
  deriving DecidableEq, Repr

namespace Cell

/-- Address of the first byte after a run of cells laid out from `address`. -/
def stop (address : Nat) : List Cell → Nat
  | [] => address
  | cell :: rest => stop (address + 32 + cell.size) rest

/-- Address of the last header of a run, or `prev` when the run is empty. -/
def lastBlock (prev address : Nat) : List Cell → Nat
  | [] => prev
  | cell :: rest => lastBlock address (address + 32 + cell.size) rest

/-- The `next` pointer of a block that ends at `address`: the following header
if there is one, else `after`. -/
def link (address : Nat) (rest : List Cell) (after : Nat) : Nat :=
  match rest with
  | [] => after
  | _ :: _ => address

/-- The headers in memory from `address` on are those of the given cells, the
first of them pointing back to `prev` and the last one forward to `after`. -/
def Chain (memory : ByteMemory) (prev address : Nat) : List Cell → Nat → Prop
  | [], _ => True
  | cell :: rest, after =>
      HeapBlock.read memory address =
          ⟨cell.size, link (address + 32 + cell.size) rest after, prev, cell.free⟩ ∧
        Chain memory address (address + 32 + cell.size) rest after

variable {memory : ByteMemory} {prev address after : Nat}

theorem le_stop (address : Nat) (cells : List Cell) : address ≤ stop address cells := by
  induction cells generalizing address with
  | nil => exact Nat.le_refl address
  | cons cell rest ih =>
      have tail := ih (address + 32 + cell.size)
      simp only [stop]
      omega

theorem stop_append (address : Nat) (left right : List Cell) :
    stop address (left ++ right) = stop (stop address left) right := by
  induction left generalizing address with
  | nil => rfl
  | cons cell rest ih => exact ih (address + 32 + cell.size)

theorem link_append (address : Nat) (left right : List Cell) (after : Nat) :
    link address (left ++ right) after =
      link address left (link (stop address left) right after) := by
  cases left with
  | nil => rfl
  | cons cell rest => rfl

theorem chain_append {left right : List Cell} :
    Chain memory prev address (left ++ right) after ↔
      Chain memory prev address left (link (stop address left) right after) ∧
        Chain memory (lastBlock prev address left) (stop address left) right after := by
  induction left generalizing prev address with
  | nil => simp [Chain, lastBlock, stop]
  | cons cell rest ih =>
      simp only [List.cons_append, Chain, lastBlock, stop]
      rw [ih, link_append]
      exact and_assoc.symm

/-- A chain only depends on the bytes it spans. -/
theorem Chain.congr {left right : ByteMemory} {cells : List Cell}
    (chain : Chain right prev address cells after)
    (agree : ByteMemory.AgreeOn left right address (stop address cells)) :
    Chain left prev address cells after := by
  induction cells generalizing prev address with
  | nil => trivial
  | cons cell rest ih =>
  have bound := le_stop (address + 32 + cell.size) rest
  simp only [stop] at agree
  constructor
  · rw [HeapBlock.read_congr (agree.mono (Nat.le_refl _) (by omega))]
    exact chain.1
  · exact ih chain.2 (agree.mono (by omega) (Nat.le_refl _))

/-- The back pointer of the first block of a chain is the only thing a store to
its `prev` field changes. -/
theorem Chain.setPrev {cell : Cell} {rest : List Cell} {value : Nat}
    (chain : Chain memory prev address (cell :: rest) after)
    (fits : value < 2 ^ 64) :
    Chain (HeapBlock.setPrev memory address value) value address
      (cell :: rest) after := by
  refine ⟨?_, chain.2.congr (HeapBlock.agreeOn_setPrev (by omega))⟩
  rw [HeapBlock.read_setPrev_self fits, chain.1]

/-- The tail of a chain keeps its shape when its owner re-targets the back
pointer through the `next` field, whether or not there is a tail. -/
theorem Chain.setPrevOfNext {rest : List Cell} {value : Nat}
    (chain : Chain memory prev address rest 0) (nonnull : 0 < address)
    (fits : value < 2 ^ 64) :
    Chain (setPrevOfNext memory (link address rest 0) value) value address rest 0 := by
  cases rest with
  | nil => trivial
  | cons cell rest =>
      change Chain (Memory.setPrevOfNext memory address value) value address
        (cell :: rest) 0
      rw [Memory.setPrevOfNext, if_pos (Nat.ne_of_gt nonnull)]
      exact chain.setPrev fits

/-- In front of the tail, re-targeting the back pointer changes nothing. -/
theorem agreeOn_setPrevOfNext {rest : List Cell} {value low high : Nat}
    (below : high ≤ address) :
    ByteMemory.AgreeOn (setPrevOfNext memory (link address rest 0) value)
      memory low high := by
  cases rest with
  | nil => exact ByteMemory.AgreeOn.refl memory low high
  | cons cell rest =>
  change ByteMemory.AgreeOn (setPrevOfNext memory address value) memory low high
  rw [setPrevOfNext]
  by_cases nonnull : address ≠ 0
  · rw [if_pos nonnull]
    exact HeapBlock.agreeOn_setPrev (Or.inl below)
  · rw [if_neg nonnull]
    exact ByteMemory.AgreeOn.refl memory low high

/-- The four stores that initialise a fresh header. -/
theorem read_initialised {size next back : Nat} {free : Bool}
    (sizeFits : size < 2 ^ 64) (nextFits : next < 2 ^ 64) (backFits : back < 2 ^ 64) :
    HeapBlock.read
        (HeapBlock.setFree (HeapBlock.setPrev (HeapBlock.setNext
          (HeapBlock.setSize memory address size) address next) address back)
          address free) address =
      ⟨size, next, back, free⟩ := by
  rw [HeapBlock.read_setFree_self, HeapBlock.read_setPrev_self backFits,
    HeapBlock.read_setNext_self nextFits, HeapBlock.read_setSize_self sizeFits]

/-- Initialising a fresh header only touches its 32 bytes. -/
theorem agreeOn_initialised {size next back low high : Nat} {free : Bool}
    (apart : high ≤ address ∨ address + 32 ≤ low) :
    ByteMemory.AgreeOn
      (HeapBlock.setFree (HeapBlock.setPrev (HeapBlock.setNext
        (HeapBlock.setSize memory address size) address next) address back)
        address free) memory low high :=
  ((HeapBlock.agreeOn_setFree apart).trans (HeapBlock.agreeOn_setPrev apart)).trans
    ((HeapBlock.agreeOn_setNext apart).trans (HeapBlock.agreeOn_setSize apart))

theorem link_lt {cells : List Cell} (bound : stop address cells ≤ 2 ^ 64)
    : link address cells 0 < 2 ^ 64 := by
  cases cells with
  | nil => exact Nat.two_pow_pos 64
  | cons cell rest =>
      have tailBound := le_stop (address + 32 + cell.size) rest
      simp only [stop] at bound
      simp only [link]
      omega

/-- The memory `kmallocSplit` leaves for a block with enough room, with the
re-reads of the source resolved. -/
def carve (memory : ByteMemory) (address aligned size next : Nat) : ByteMemory :=
  HeapBlock.setFree (HeapBlock.setNext (HeapBlock.setSize
    (setPrevOfNext
      (HeapBlock.setFree (HeapBlock.setPrev (HeapBlock.setNext
        (HeapBlock.setSize memory (address + 32 + aligned) (size - aligned - 32))
        (address + 32 + aligned) next) (address + 32 + aligned) address)
        (address + 32 + aligned) true)
      next (address + 32 + aligned))
    address aligned) address (address + 32 + aligned)) address false

theorem kmallocSplit_eq_carve {aligned size next : Nat}
    (sizeEq : (HeapBlock.read memory address).size = size)
    (nextEq : (HeapBlock.read memory address).next = next)
    (room : aligned + 32 ≤ size) (bound : address + 32 + size ≤ 2 ^ 64) :
    kmallocSplit memory address aligned = carve memory address aligned size next := by
  have newAddress : (address + 32 + aligned) % 2 ^ 64 = address + 32 + aligned :=
    Nat.mod_eq_of_lt (by omega)
  have newSize : (size + 2 ^ 64 + 2 ^ 64 - aligned - 32) % 2 ^ 64 =
      size - aligned - 32 := by
    rw [show size + 2 ^ 64 + 2 ^ 64 - aligned - 32 =
      size - aligned - 32 + 2 ^ 64 + 2 ^ 64 by omega]
    rw [Nat.add_mod_right, Nat.add_mod_right, Nat.mod_eq_of_lt (by omega)]
  have unchanged : ∀ {other : ByteMemory},
      ByteMemory.AgreeOn other memory address (address + 32) →
        (HeapBlock.read other address).next = next := by
    intro other agree
    rw [HeapBlock.read_congr agree, nextEq]
  simp only [kmallocSplit, headerSize, word64, newAddress, sizeEq, newSize, carve]
  rw [unchanged (HeapBlock.agreeOn_setSize (by omega))]
  rw [unchanged (agreeOn_initialised (by omega))]

/-- Carving only re-targets the back pointer of the tail beyond the block. -/
theorem Chain.carve_tail {rest : List Cell} {aligned size : Nat}
    (tail : Chain memory prev (address + 32 + size) rest 0)
    (room : aligned + 32 ≤ size) (bound : address + 32 + size ≤ 2 ^ 64) :
    Chain (carve memory address aligned size (link (address + 32 + size) rest 0))
      (address + 32 + aligned) (address + 32 + size) rest 0 := by
  have fits : address + 32 + aligned < 2 ^ 64 := by omega
  refine Chain.congr ?_ ((HeapBlock.agreeOn_setFree (by omega)).trans
    ((HeapBlock.agreeOn_setNext (by omega)).trans
      (HeapBlock.agreeOn_setSize (by omega))))
  refine Chain.setPrevOfNext (Chain.congr tail ?_) (by omega) fits
  exact agreeOn_initialised (by omega)

/-- Carving a block off the front of a free cell yields the allocated cell and
the free remainder, linked in place of the old cell. -/
theorem Chain.split {cell : Cell} {rest : List Cell} {aligned : Nat}
    (chain : Chain memory prev address (cell :: rest) 0)
    (room : aligned + 32 ≤ cell.size)
    (bound : stop address (cell :: rest) ≤ 2 ^ 64) :
    Chain (kmallocSplit memory address aligned) prev address
      (⟨aligned, false⟩ :: ⟨cell.size - aligned - 32, true⟩ :: rest) 0 := by
  have tailBound := le_stop (address + 32 + cell.size) rest
  simp only [stop] at bound
  obtain ⟨header, tail⟩ := chain
  have sizeEq : (HeapBlock.read memory address).size = cell.size := by rw [header]
  have nextEq : (HeapBlock.read memory address).next =
      link (address + 32 + cell.size) rest 0 := by
    rw [header]
  rw [kmallocSplit_eq_carve sizeEq nextEq room (by omega)]
  -- the remainder ends where the old cell ended
  have sameEnd : address + 32 + aligned + 32 + (cell.size - aligned - 32) =
      address + 32 + cell.size := by
    omega
  refine ⟨?_, ?_, ?_⟩
  · rw [carve, HeapBlock.read_setFree_self, HeapBlock.read_setNext_self (by omega),
      HeapBlock.read_setSize_self (by omega),
      HeapBlock.read_congr (agreeOn_setPrevOfNext (by omega)),
      HeapBlock.read_congr (agreeOn_initialised (by omega)), header]
    rfl
  · dsimp only
    rw [carve, HeapBlock.read_congr (HeapBlock.agreeOn_setFree (by omega)),
      HeapBlock.read_congr (HeapBlock.agreeOn_setNext (by omega)),
      HeapBlock.read_congr (HeapBlock.agreeOn_setSize (by omega)),
      HeapBlock.read_congr (agreeOn_setPrevOfNext (by omega)),
      read_initialised (by omega) (link_lt bound) (by omega), sameEnd]
  · dsimp only
    rw [sameEnd]
    exact tail.carve_tail room (by omega)

/-- Splitting a block leaves everything in front of it alone. -/
theorem agreeOn_kmallocSplit {cell : Cell} {rest : List Cell} {aligned low : Nat}
    (chain : Chain memory prev address (cell :: rest) 0)
    (room : aligned + 32 ≤ cell.size)
    (bound : stop address (cell :: rest) ≤ 2 ^ 64) :
    ByteMemory.AgreeOn (kmallocSplit memory address aligned) memory low address := by
  have tailBound := le_stop (address + 32 + cell.size) rest
  simp only [stop] at bound
  have sizeEq : (HeapBlock.read memory address).size = cell.size := by rw [chain.1]
  have nextEq : (HeapBlock.read memory address).next =
      link (address + 32 + cell.size) rest 0 := by
    rw [chain.1]
  rw [kmallocSplit_eq_carve sizeEq nextEq room (by omega), carve]
  refine ((HeapBlock.agreeOn_setFree (by omega)).trans
    ((HeapBlock.agreeOn_setNext (by omega)).trans
      (HeapBlock.agreeOn_setSize (by omega)))).trans ?_
  exact (agreeOn_setPrevOfNext (by omega)).trans (agreeOn_initialised (by omega))

/-- The memory either merge step of `kfree` leaves when `block` swallows its
successor: the new size, the successor's `next`, and the back pointer of the
block behind it. -/
def absorb (memory : ByteMemory) (block size next : Nat) : ByteMemory :=
  setPrevOfNext (HeapBlock.setNext (HeapBlock.setSize memory block size) block next)
    next block

theorem agreeOn_absorb {rest : List Cell} {block size low high : Nat}
    (inFront : high ≤ block) (behind : block ≤ address) :
    ByteMemory.AgreeOn (absorb memory block size (link address rest 0))
      memory low high :=
  (agreeOn_setPrevOfNext (by omega)).trans
    ((HeapBlock.agreeOn_setNext (by omega)).trans
      (HeapBlock.agreeOn_setSize (by omega)))

/-- Swallowing the successor replaces two neighbouring cells by one that spans
both, header included. -/
theorem Chain.absorb {left right : Cell} {rest : List Cell}
    (chain : Chain memory prev address (left :: right :: rest) 0)
    (bound : stop address (left :: right :: rest) ≤ 2 ^ 64) :
    Chain (absorb memory address (left.size + 32 + right.size)
        (link (address + 32 + left.size + 32 + right.size) rest 0))
      prev address (⟨left.size + 32 + right.size, left.free⟩ :: rest) 0 := by
  obtain ⟨leftHeader, -, tail⟩ := chain
  have tailBound := le_stop (address + 32 + left.size + 32 + right.size) rest
  simp only [stop] at bound
  have sameEnd : address + 32 + (left.size + 32 + right.size) =
      address + 32 + left.size + 32 + right.size := by
    omega
  have nextFits := link_lt bound
  constructor
  · dsimp only
    rw [Cell.absorb, sameEnd, HeapBlock.read_congr (agreeOn_setPrevOfNext (by omega)),
      HeapBlock.read_setNext_self nextFits, HeapBlock.read_setSize_self (by omega),
      leftHeader]
  · dsimp only
    rw [sameEnd]
    refine Chain.setPrevOfNext (Chain.congr tail ?_) (by omega) (by omega)
    exact (HeapBlock.agreeOn_setNext (by omega)).trans
      (HeapBlock.agreeOn_setSize (by omega))

/-- A block whose successor is free swallows it. -/
theorem kfreeMergeNext_of_free {left right : Cell} {rest : List Cell}
    (chain : Chain memory prev address (left :: right :: rest) 0)
    (bound : stop address (left :: right :: rest) ≤ 2 ^ 64)
    (rightFree : right.free = true) :
    kfreeMergeNext memory address =
      Cell.absorb memory address (left.size + 32 + right.size)
        (link (address + 32 + left.size + 32 + right.size) rest 0) := by
  obtain ⟨leftHeader, rightHeader, -⟩ := chain
  have tailBound := le_stop (address + 32 + left.size + 32 + right.size) rest
  simp only [stop] at bound
  have nextFits := link_lt bound
  have leftNext : (HeapBlock.read memory address).next = address + 32 + left.size := by
    rw [leftHeader]
    rfl
  have leftSize : (HeapBlock.read memory address).size = left.size := by
    rw [leftHeader]
  have sum : (left.size + 32 + right.size) % 2 ^ 64 = left.size + 32 + right.size :=
    Nat.mod_eq_of_lt (by omega)
  have rightKept : ∀ {other : ByteMemory},
      ByteMemory.AgreeOn other memory (address + 32 + left.size)
        (address + 32 + left.size + 32) →
      HeapBlock.read other (address + 32 + left.size) =
        HeapBlock.read memory (address + 32 + left.size) :=
    fun agree => HeapBlock.read_congr agree
  have taken : address + 32 + left.size ≠ 0 ∧
      (HeapBlock.read memory (address + 32 + left.size)).free = true := by
    rw [rightHeader]
    exact ⟨by omega, rightFree⟩
  simp only [kfreeMergeNext, leftNext, leftSize, headerSize, word64]
  rw [if_pos taken, rightKept (HeapBlock.agreeOn_setSize (by omega)), rightHeader]
  dsimp only
  rw [sum, HeapBlock.read_setNext_self nextFits]
  rfl

/-- The successor swallowed by its free predecessor: the same stores, found
through the back pointer. -/
theorem kfreeMergePrev_of_free {left right : Cell} {rest : List Cell}
    (chain : Chain memory prev address (left :: right :: rest) 0)
    (bound : stop address (left :: right :: rest) ≤ 2 ^ 64) (nonnull : 0 < address)
    (leftFree : left.free = true) :
    kfreeMergePrev memory (address + 32 + left.size) =
      Cell.absorb memory address (left.size + 32 + right.size)
        (link (address + 32 + left.size + 32 + right.size) rest 0) := by
  obtain ⟨leftHeader, rightHeader, -⟩ := chain
  have tailBound := le_stop (address + 32 + left.size + 32 + right.size) rest
  simp only [stop] at bound
  have rightPrev : (HeapBlock.read memory (address + 32 + left.size)).prev = address := by
    rw [rightHeader]
  have leftSize : (HeapBlock.read memory address).size = left.size := by
    rw [leftHeader]
  have sum : (left.size + 32 + right.size) % 2 ^ 64 = left.size + 32 + right.size :=
    Nat.mod_eq_of_lt (by omega)
  have rightKept : ∀ {other : ByteMemory},
      ByteMemory.AgreeOn other memory (address + 32 + left.size)
        (address + 32 + left.size + 32) →
      HeapBlock.read other (address + 32 + left.size) =
        HeapBlock.read memory (address + 32 + left.size) :=
    fun agree => HeapBlock.read_congr agree
  have taken : address ≠ 0 ∧ (HeapBlock.read memory address).free = true := by
    rw [leftHeader]
    exact ⟨by omega, leftFree⟩
  simp only [kfreeMergePrev, rightPrev, leftSize, headerSize, word64]
  rw [if_pos taken, rightKept (HeapBlock.agreeOn_setSize (by omega)),
    rightKept ((HeapBlock.agreeOn_setNext (by omega)).trans
      (HeapBlock.agreeOn_setSize (by omega))), rightHeader]
  dsimp only
  rw [sum]
  rfl

end Cell

end Charis.Memory
