import Charis.Memory.HeapSafety

/-!
# Requests that no block can hold

`kmalloc` rounds a request up to a multiple of 16 and adds a header before it
compares with the size of a block, and both sums are taken modulo `2 ^ 64`.  The
last 47 sizes below `2 ^ 64` therefore ask for at most 32 bytes in the
comparison, and a free block of that size is cut as if it held the request.
-/

namespace Charis.Memory

open Lib

namespace Heap

/-- The headers from `curr` on, in list order and at most `fuel` of them, each
with its address. -/
def blocksFrom (memory : ByteMemory) : Nat → Nat → List (Nat × HeapBlock)
  | 0, _ => []
  | fuel + 1, curr =>
      if curr = 0 then
        []
      else
        (curr, HeapBlock.read memory curr) ::
          blocksFrom memory fuel (HeapBlock.read memory curr).next

/-- The block list, as far as the loop of `kmalloc` follows it. -/
def blocks (heap : Heap) : List (Nat × HeapBlock) :=
  blocksFrom heap.memory (heap.size + 1) heap.head

/-- The test of the loop, on one block. -/
def accepts (aligned : Nat) (block : HeapBlock) : Bool :=
  block.free && decide ((aligned + headerSize) % word64 ≤ block.size)

/-- What a block must hold for a request: the request rounded up to a multiple
of 16, and the header of the remainder. -/
def bytesNeeded (requested : Nat) : Nat := (requested + 15) / 16 * 16 + headerSize

/-- No free block has room for the request. -/
def Oversized (heap : Heap) (requested : Nat) : Prop :=
  ∀ entry ∈ heap.blocks, entry.2.free = true → entry.2.size < bytesNeeded requested

/-- The request does not wrap around, or no free block has room for what is left
of it modulo `2 ^ 64`. -/
def Comparable (heap : Heap) (requested : Nat) : Prop :=
  requested + 47 < word64 ∨
    ∀ entry ∈ heap.blocks, entry.2.free = true →
      entry.2.size < bytesNeeded requested - word64

variable {memory : ByteMemory} {heap : Heap} {aligned requested : Nat}

/-- The loop takes the first block of the list that passes its test. -/
theorem kmallocLoop_eq_find (aligned fuel curr : Nat) :
    kmallocLoop memory aligned fuel curr =
      match (blocksFrom memory fuel curr).find? fun entry => accepts aligned entry.2 with
      | none => (0, memory)
      | some entry =>
          ((entry.1 + headerSize) % word64, kmallocSplit memory entry.1 aligned) := by
  induction fuel generalizing curr with
  | zero => rfl
  | succ fuel ih =>
  simp only [kmallocLoop, blocksFrom]
  by_cases last : curr = 0
  · rw [if_pos last, if_pos last]
    rfl
  · rw [if_neg last, if_neg last]
    by_cases fits : (HeapBlock.read memory curr).free = true ∧
        (aligned + headerSize) % word64 ≤ (HeapBlock.read memory curr).size
    · have accepted : accepts aligned (HeapBlock.read memory curr) = true := by
        simpa [accepts] using fits
      simp only [if_pos fits, List.find?_cons, accepted]
    · have rejected : accepts aligned (HeapBlock.read memory curr) = false := by
        simpa [accepts] using fits
      simp only [if_neg fits, List.find?_cons, rejected]
      exact ih _

theorem read_of_mem_blocksFrom {fuel curr : Nat} {entry : Nat × HeapBlock}
    (member : entry ∈ blocksFrom memory fuel curr) :
    entry.2 = HeapBlock.read memory entry.1 := by
  induction fuel generalizing curr with
  | zero => cases member
  | succ fuel ih =>
  rw [blocksFrom] at member
  split at member
  · cases member
  · rcases List.mem_cons.mp member with rfl | later
    · rfl
    · exact ih later

/-- The room the loop compares with, for every 64-bit request. -/
theorem wrapped_room (word : requested < word64) :
    (alignUp16 requested + headerSize) % word64 =
      if requested + 47 < word64 then bytesNeeded requested
      else bytesNeeded requested - word64 := by
  simp only [alignUp16, bytesNeeded, headerSize, word64] at word ⊢
  by_cases small : requested + 15 < 2 ^ 64
  · rw [Nat.mod_eq_of_lt small]
    split
    · rw [Nat.mod_eq_of_lt (by omega)]
    · rw [Nat.mod_eq_sub_mod (by omega), Nat.mod_eq_of_lt (by omega)]
  · have sum : (requested + 15) % 2 ^ 64 = requested + 15 - 2 ^ 64 := by
      rw [Nat.mod_eq_sub_mod (by omega), Nat.mod_eq_of_lt (by omega)]
    rw [if_neg (by omega), sum, Nat.mod_eq_of_lt (by omega)]
    omega

/-- With no block accepted the heap is left as it was. -/
theorem kmalloc_of_rejected
    (rejected : ∀ entry ∈ heap.blocks, accepts (alignUp16 requested) entry.2 = false) :
    kmalloc heap requested = (0, heap) := by
  rw [kmalloc]
  split
  · rfl
  · have missing : (blocksFrom heap.memory (heap.size + 1) heap.head).find?
        (fun entry => accepts (alignUp16 requested) entry.2) = none := by
      apply List.find?_eq_none.mpr
      intro entry member
      simp [rejected entry member]
    rw [kmallocLoop_eq_find, missing]

/-- An accepted block is marked in use. -/
theorem kmalloc_of_accepted (positive : 0 < requested) {entry : Nat × HeapBlock}
    (member : entry ∈ heap.blocks)
    (accepted : accepts (alignUp16 requested) entry.2 = true) :
    ∃ taken ∈ heap.blocks, taken.2.free = true ∧
      (HeapBlock.read (kmalloc heap requested).2.memory taken.1).free = false := by
  have entered : ¬(heap.head = 0 ∨ requested = 0) := by
    rintro (empty | zero)
    · simp [blocks, blocksFrom, empty] at member
    · exact Nat.ne_of_gt positive zero
  have found : ((blocksFrom heap.memory (heap.size + 1) heap.head).find?
      fun entry => accepts (alignUp16 requested) entry.2).isSome = true :=
    List.find?_isSome.mpr ⟨entry, member, accepted⟩
  obtain ⟨taken, search⟩ := Option.isSome_iff_exists.mp found
  have test := List.find?_some search
  refine ⟨taken, List.mem_of_find?_eq_some search, ?_, ?_⟩
  · rw [accepts, Bool.and_eq_true] at test
    exact test.1
  · rw [kmalloc, if_neg entered, kmallocLoop_eq_find, search]
    simp only [kmallocSplit, HeapBlock.read_setFree_self]

end Heap

namespace HeapState

variable {start size requested : Nat} {state : HeapState} {cells : List Cell}

/-- `kmalloc` returns null and neither a block header nor a byte of a live
allocation has changed. -/
structure Refused (state : HeapState) (requested : Nat) : Prop where
  null : (kmalloc state.heap requested).1 = 0
  headers : (kmalloc state.heap requested).2.blocks = state.heap.blocks
  contents : ∀ allocation ∈ state.live, ∀ offset < allocation.requested,
    (kmalloc state.heap requested).2.memory (allocation.ptr + offset) =
      state.heap.memory (allocation.ptr + offset)

/-- A comparable request that no block has room for finds no block. -/
theorem kmalloc_of_comparable (word : requested < word64)
    (oversized : state.heap.Oversized requested)
    (comparable : state.heap.Comparable requested) :
    kmalloc state.heap requested = (0, state.heap) := by
  apply Heap.kmalloc_of_rejected
  intro entry member
  rw [Heap.accepts, Heap.wrapped_room word]
  cases free : entry.2.free with
  | false => rfl
  | true =>
  have tooSmall := oversized entry member free
  simp only [Bool.true_and, decide_eq_false_iff_not, Nat.not_le]
  split
  · exact tooSmall
  · next wraps =>
      rcases comparable with small | rejected
      · exact (wraps small).elim
      · exact rejected entry member free

/-- A request that no block has room for is refused exactly when it is
comparable: otherwise some free block is marked in use. -/
theorem refused_iff_comparable (word : requested < word64)
    (oversized : state.heap.Oversized requested) :
    Refused state requested ↔ state.heap.Comparable requested := by
  constructor
  · intro refused
    by_contra wraps
    rw [Heap.Comparable, not_or, not_forall] at wraps
    obtain ⟨large, entry, accepted⟩ := wraps
    push Not at accepted
    obtain ⟨member, free, room⟩ := accepted
    have fits : Heap.accepts (alignUp16 requested) entry.2 = true := by
      rw [Heap.accepts, Heap.wrapped_room word, if_neg large, free]
      simpa using room
    have positive : 0 < requested := by
      simp only [word64] at large
      omega
    obtain ⟨taken, isBlock, wasFree, inUse⟩ := Heap.kmalloc_of_accepted positive member fits
    -- the header of the block taken is still listed, with the flag it had
    rw [← refused.headers] at isBlock
    rw [Heap.read_of_mem_blocksFrom isBlock, inUse] at wasFree
    cases wasFree
  · intro comparable
    have unchanged := kmalloc_of_comparable word oversized comparable
    constructor
    · rw [unchanged]
    · rw [unchanged]
    · intro allocation _ offset _
      rw [unchanged]

/-- The states reachable from `heap_init` by requests of any 64-bit size, frees
of live pointers and client stores, as long as each request that no block has
room for is comparable. -/
inductive Requests (memory : ByteMemory) (start size : Nat) : HeapState → Prop where
  | init : Requests memory start size ⟨heapInit memory start size, []⟩
  | malloc {state : HeapState} (requested : Nat) :
      Requests memory start size state → requested < word64 →
      (state.heap.Oversized requested → state.heap.Comparable requested) →
      Requests memory start size (state.malloc requested)
  | free {state : HeapState} {allocation : Live} :
      Requests memory start size state → allocation ∈ state.live →
      Requests memory start size (state.free allocation.ptr)
  | store {state : HeapState} {allocation : Live} (contents : ByteMemory) :
      Requests memory start size state → allocation ∈ state.live →
      (∀ address, address < allocation.ptr ∨
          allocation.ptr + allocation.requested ≤ address →
        contents address = state.heap.memory address) →
      Requests memory start size
        { state with heap := { state.heap with memory := contents } }

/-- The headers of a run of cells, each with its address. -/
def entries (prev address : Nat) : List Cell → List (Nat × HeapBlock)
  | [] => []
  | cell :: rest =>
      (address, ⟨cell.size, Cell.link (address + 32 + cell.size) rest 0, prev, cell.free⟩) ::
        entries address (address + 32 + cell.size) rest

theorem blocksFrom_eq_entries {memory : ByteMemory} {prev address fuel : Nat}
    (chain : Cell.Chain memory prev address cells 0) (nonnull : 0 < address)
    (enough : cells.length < fuel) :
    Heap.blocksFrom memory fuel (Cell.link address cells 0) =
      entries prev address cells := by
  induction cells generalizing prev address fuel with
  | nil =>
      cases fuel with
      | zero => rfl
      | succ fuel => rfl
  | cons cell rest ih =>
  cases fuel with
  | zero => cases enough
  | succ fuel =>
      obtain ⟨header, tail⟩ := chain
      have shorter : rest.length < fuel := by simpa using enough
      change Heap.blocksFrom memory (fuel + 1) address = _
      rw [Heap.blocksFrom, if_neg (Nat.ne_of_gt nonnull), header, entries]
      rw [ih tail (by omega) shorter]

/-- The list that `kmalloc` follows is the whole list of blocks. -/
theorem Invariant.blocks_eq (invariant : Invariant start size state cells)
    (region : Region start size) : state.heap.blocks = entries 0 start cells := by
  have tiles := invariant.tiles
  have holds := region.holdsHeader
  have short := Cell.length_le_stop start cells
  rw [Heap.blocks, invariant.head, invariant.region]
  cases shape : cells with
  | nil =>
      rw [shape, Cell.stop] at tiles
      omega
  | cons cell rest =>
  rw [← shape]
  have first : Cell.link start cells 0 = start := by rw [shape]; rfl
  have walked : Heap.blocksFrom state.heap.memory (size + 1) (Cell.link start cells 0) =
      entries 0 start cells :=
    blocksFrom_eq_entries invariant.chain region.nonnull (by omega)
  rw [first] at walked
  exact walked

theorem size_of_mem_entries {prev address : Nat} {entry : Nat × HeapBlock}
    (member : entry ∈ entries prev address cells) :
    address + 32 + entry.2.size ≤ Cell.stop address cells := by
  induction cells generalizing prev address with
  | nil => cases member
  | cons cell rest ih =>
  have tail := Cell.le_stop (address + 32 + cell.size) rest
  rw [Cell.stop]
  rcases List.mem_cons.mp member with rfl | later
  · exact tail
  · have behind := ih later
    omega

/-- A request beyond the size of the heap is one no block has room for. -/
theorem Invariant.oversized (invariant : Invariant start size state cells)
    (region : Region start size) (beyond : size < requested) :
    state.heap.Oversized requested := by
  intro entry member _
  rw [invariant.blocks_eq region] at member
  have bound := size_of_mem_entries member
  rw [invariant.tiles] at bound
  simp only [Heap.bytesNeeded, headerSize]
  omega

/-- A refused request leaves no trace in the state. -/
theorem malloc_of_unchanged (unchanged : kmalloc state.heap requested = (0, state.heap)) :
    state.malloc requested = state := by
  simp only [HeapState.malloc, unchanged, if_true]

/-- Requests beyond the size of the heap add no states to those reachable. -/
theorem Requests.reachable {memory : ByteMemory} (run : Requests memory start size state)
    (region : Region start size) : Reachable memory start size state := by
  induction run with
  | init => exact .init
  | malloc requested _ word comparable ih =>
      rename_i state _
      obtain ⟨cells, invariant⟩ := ih.invariant region
      by_cases within : 1 ≤ requested ∧ requested ≤ size
      · exact ih.malloc requested within.1 within.2
      · have unchanged : kmalloc state.heap requested = (0, state.heap) := by
          by_cases zero : requested = 0
          · rw [kmalloc, if_pos (Or.inr zero)]
          · have oversized : state.heap.Oversized requested :=
              invariant.oversized region (by omega)
            exact kmalloc_of_comparable word oversized (comparable oversized)
        rw [malloc_of_unchanged unchanged]
        exact ih
  | free _ isLive ih => exact ih.free isLive
  | store contents _ isLive confined ih => exact ih.store contents isLive confined

/-- Whatever the requests, frees and stores before it, a request that no free block
has room for is refused without a trace exactly when it is comparable.  The heap
stays sound as long as all of them are. -/
theorem oversized_request_refused_iff {memory : ByteMemory} (region : Region start size)
    (run : Requests memory start size state) :
    (∃ cells, Sound start size state cells) ∧
      ∀ requested < word64, state.heap.Oversized requested →
        (Refused state requested ↔ state.heap.Comparable requested) := by
  constructor
  · exact heap_sound_of_reachable region (run.reachable region)
  · intro requested word oversized
    exact refused_iff_comparable word oversized

/-- `width * height * 4` of `compositor_create_surface`: an `int` product that
`kmalloc` takes as a `usize`. -/
def surfaceBytes (width height : Int) : Nat :=
  ((width * height * 4).bmod (2 ^ 32) % 2 ^ 64).toNat

theorem surfaceBytes_lt (width height : Int) : surfaceBytes width height < word64 := by
  have bound := Int.emod_lt_of_pos ((width * height * 4).bmod (2 ^ 32))
    (show (0 : Int) < 2 ^ 64 by decide)
  simp only [surfaceBytes, word64]
  omega

/-- Its only block has 32 bytes less than the region. -/
theorem mem_blocks_bootHeap {entry : Nat × HeapBlock} :
    entry ∈ bootHeap.heap.blocks ↔
      entry = (0xFFFF900000000000, ⟨0x3FFFE0, 0, 0, true⟩) := by
  have invariant := invariant_init bootHeap_region fun _ => 0
  have blocks : bootHeap.heap.blocks = _ := invariant.blocks_eq bootHeap_region
  rw [blocks, entries, entries, List.mem_singleton]
  rfl

theorem bootHeap_oversized {requested : Nat} (large : 0x400000 ≤ requested) :
    bootHeap.heap.Oversized requested := by
  intro entry member _
  rw [mem_blocks_bootHeap.mp member]
  simp only [Heap.bytesNeeded, headerSize]
  omega

/-- On the heap of the boot a request for 4 GiB is refused. -/
theorem oversized_request_refused_at_boot :
    Refused bootHeap 0x100000000 ↔ bootHeap.heap.Comparable 0x100000000 :=
  (oversized_request_refused_iff bootHeap_region .init).2 _ (by decide)
    (bootHeap_oversized (by decide))

/-- The buffer of a surface that is -1 pixels wide and 1 pixel high needs
`2 ^ 64 - 4` bytes, and the only block of the heap is cut for it. -/
theorem negative_surface_not_refused :
    Requests (fun _ => 0) 0xFFFF900000000000 0x400000 bootHeap ∧
      surfaceBytes (-1) 1 = 2 ^ 64 - 4 ∧
      bootHeap.heap.Oversized (surfaceBytes (-1) 1) ∧
      ¬ Refused bootHeap (surfaceBytes (-1) 1) := by
  have bytes : surfaceBytes (-1) 1 = 2 ^ 64 - 4 := by decide
  have oversized : bootHeap.heap.Oversized (surfaceBytes (-1) 1) := by
    rw [bytes]
    exact bootHeap_oversized (by decide)
  refine ⟨.init, bytes, oversized, ?_⟩
  intro refused
  rcases (refused_iff_comparable (surfaceBytes_lt _ _) oversized).mp refused with small | rejected
  · rw [bytes] at small
    exact absurd small (by decide)
  · have tooSmall := rejected _ (mem_blocks_bootHeap.mpr rfl) rfl
    rw [bytes] at tooSmall
    exact absurd tooSmall (by decide)

end HeapState

end Charis.Memory
