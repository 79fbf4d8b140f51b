import Charis.Memory.HeapLayout

/-!
# Safety of the kernel heap over whole runs

A run of the heap starts with `heap_init` and interleaves `kmalloc`, `kfree` of
live pointers and arbitrary stores of the clients into the memory they own.  The
invariant says that the block list tiles the region, that free neighbours are
always merged, and that the blocks in use are exactly the live allocations.
-/

namespace Charis.Memory

open Lib

namespace Cell

/-- The allocated blocks of a run of cells, each with the address of its header. -/
def used (address : Nat) : List Cell → List (Nat × Cell)
  | [] => []
  | cell :: rest =>
      if cell.free then
        used (address + 32 + cell.size) rest
      else
        (address, cell) :: used (address + 32 + cell.size) rest

/-- Neighbouring cells are never both free. -/
def Coalesced (cells : List Cell) : Prop :=
  cells.IsChain fun left right => ¬(left.free = true ∧ right.free = true)

variable {memory : ByteMemory} {prev address : Nat}

theorem used_append (address : Nat) (left right : List Cell) :
    used address (left ++ right) = used address left ++ used (stop address left) right := by
  induction left generalizing address with
  | nil => rfl
  | cons cell rest ih =>
      simp only [List.cons_append, used, stop]
      rw [ih]
      split
      · rfl
      · rfl

/-- An allocated block splits the list of cells at its address. -/
theorem exists_split_of_mem_used {cells : List Cell} {block : Nat} {cell : Cell}
    (member : (block, cell) ∈ used address cells) :
    ∃ front back, cells = front ++ cell :: back ∧ block = stop address front ∧
      cell.free = false := by
  induction cells generalizing address with
  | nil => simp [used] at member
  | cons head rest ih =>
  simp only [used] at member
  split at member
  · obtain ⟨front, back, rfl, rfl, inUse⟩ := ih member
    exact ⟨head :: front, back, rfl, rfl, inUse⟩
  · rename_i notFree
    rcases List.mem_cons.mp member with equal | later
    · cases equal
      exact ⟨[], rest, rfl, rfl, by simpa using notFree⟩
    · obtain ⟨front, back, rfl, rfl, inUse⟩ := ih later
      exact ⟨head :: front, back, rfl, rfl, inUse⟩

/-- Blocks lie inside the region they tile. -/
theorem used_bounds {cells : List Cell} {block : Nat} {cell : Cell}
    (member : (block, cell) ∈ used address cells) :
    address ≤ block ∧ block + 32 + cell.size ≤ stop address cells := by
  obtain ⟨front, back, rfl, rfl, -⟩ := exists_split_of_mem_used member
  have lower := le_stop address front
  have upper := le_stop (stop address front + 32 + cell.size) back
  rw [stop_append]
  simp only [stop]
  exact ⟨lower, upper⟩

/-- A block number of cells never exceeds the bytes they span. -/
theorem length_le_stop (address : Nat) (cells : List Cell) :
    address + 32 * cells.length ≤ stop address cells := by
  induction cells generalizing address with
  | nil => simp [stop]
  | cons cell rest ih =>
      have tail := ih (address + 32 + cell.size)
      simp only [stop, List.length_cons]
      omega

/-- First fit: the loop stops at the first free cell with room for the request
and a further header, and otherwise leaves the memory alone. -/
theorem kmallocLoop_spec {cells : List Cell} {aligned fuel : Nat}
    (chain : Chain memory prev address cells 0) (nonnull : 0 < address)
    (bound : stop address cells ≤ 2 ^ 64) (noWrap : aligned + 32 < 2 ^ 64)
    (enough : cells.length ≤ fuel) :
    kmallocLoop memory aligned fuel (link address cells 0) = (0, memory) ∨
      ∃ front cell back, cells = front ++ cell :: back ∧ cell.free = true ∧
        aligned + 32 ≤ cell.size ∧
        kmallocLoop memory aligned fuel (link address cells 0) =
          (stop address front + 32, kmallocSplit memory (stop address front) aligned) := by
  induction cells generalizing prev address fuel with
  | nil =>
      left
      cases fuel with
      | zero => rfl
      | succ fuel => simp [kmallocLoop, link]
  | cons cell rest ih =>
  cases fuel with
  | zero => simp at enough
  | succ fuel =>
  obtain ⟨header, tail⟩ := chain
  have current : link address (cell :: rest) 0 = address := rfl
  have tailBound := le_stop (address + 32 + cell.size) rest
  simp only [stop] at bound
  rw [current]
  simp only [kmallocLoop, header, headerSize, word64, Nat.mod_eq_of_lt noWrap]
  rw [if_neg (Nat.ne_of_gt nonnull)]
  by_cases fits : cell.free = true ∧ aligned + 32 ≤ cell.size
  · right
    refine ⟨[], cell, rest, rfl, fits.1, fits.2, ?_⟩
    rw [if_pos fits, Nat.mod_eq_of_lt (by omega)]
    rfl
  · rw [if_neg fits]
    have shorter : rest.length ≤ fuel := by simpa using enough
    rcases ih tail (by omega) bound shorter with
      missing | ⟨front, found, back, rfl, free, room, result⟩
    · exact Or.inl missing
    · exact Or.inr ⟨cell :: front, found, back, rfl, free, room, result⟩

/-- Marking a block free is a change of its cell only. -/
theorem Chain.setFree {cell : Cell} {rest : List Cell} {after : Nat} {value : Bool}
    (chain : Chain memory prev address (cell :: rest) after) :
    Chain (HeapBlock.setFree memory address value) prev address
      (⟨cell.size, value⟩ :: rest) after := by
  refine ⟨?_, chain.2.congr (HeapBlock.agreeOn_setFree (by omega))⟩
  rw [HeapBlock.read_setFree_self, chain.1]

/-- The cells after the first merge step of `kfree`: the freed block followed by
what is left of its tail. -/
def mergeNext (cell : Cell) (rest : List Cell) : List Cell :=
  match rest with
  | [] => [cell]
  | next :: rest =>
      if next.free then
        ⟨cell.size + 32 + next.size, cell.free⟩ :: rest
      else
        cell :: next :: rest

theorem kfreeMergeNext_spec {cell : Cell} {rest : List Cell} (low : Nat)
    (chain : Chain memory prev address (cell :: rest) 0)
    (bound : stop address (cell :: rest) ≤ 2 ^ 64) :
    Chain (kfreeMergeNext memory address) prev address (mergeNext cell rest) 0 ∧
      ByteMemory.AgreeOn (kfreeMergeNext memory address) memory low address := by
  cases rest with
  | nil =>
      have last : (HeapBlock.read memory address).next = 0 := by
        rw [chain.1]
        rfl
      simp only [kfreeMergeNext, last]
      exact ⟨chain, ByteMemory.AgreeOn.refl memory low address⟩
  | cons next rest =>
  by_cases nextFree : next.free = true
  · rw [kfreeMergeNext_of_free chain bound nextFree]
    simp only [mergeNext, nextFree, if_true]
    exact ⟨chain.absorb bound, agreeOn_absorb (Nat.le_refl address) (by omega)⟩
  · have target : (HeapBlock.read memory address).next =
        address + 32 + cell.size := by
      rw [chain.1]
      rfl
    have notFree : (HeapBlock.read memory (address + 32 + cell.size)).free =
        next.free := by
      rw [chain.2.1]
    simp only [kfreeMergeNext, target, notFree, nextFree, mergeNext]
    simp only [and_false, if_false, Bool.false_eq_true]
    exact ⟨chain, ByteMemory.AgreeOn.refl memory low address⟩

/-- A merge step neither moves the end of the region nor the blocks in use. -/
theorem stop_mergeNext (address : Nat) (cell : Cell) (rest : List Cell) :
    stop address (mergeNext cell rest) = stop address (cell :: rest) := by
  cases rest with
  | nil => rfl
  | cons next rest =>
  simp only [mergeNext]
  split
  · simp only [stop]
    congr 1
    omega
  · rfl

theorem used_mergeNext {cell : Cell} {rest : List Cell} (free : cell.free = true) :
    used address (mergeNext cell rest) = used (address + 32 + cell.size) rest := by
  cases rest with
  | nil => simp [mergeNext, used, free]
  | cons next rest =>
  simp only [mergeNext]
  split
  · rename_i nextFree
    simp only [used, free, nextFree, if_true]
    congr 1
    omega
  · simp [used, free]

/-- After the merge the freed block is followed by a block in use. -/
theorem mergeNext_coalesced {cell : Cell} {rest : List Cell}
    (tail : Coalesced rest) : Coalesced (mergeNext cell rest) := by
  cases rest with
  | nil => exact List.IsChain.singleton _
  | cons next rest =>
  simp only [mergeNext]
  split
  · rename_i nextFree
    cases rest with
    | nil => exact List.IsChain.singleton _
    | cons third rest =>
        have pair := List.isChain_cons_cons.mp tail
        refine List.isChain_cons_cons.mpr ⟨?_, pair.2⟩
        rintro ⟨-, thirdFree⟩
        exact pair.1 ⟨nextFree, thirdFree⟩
  · rename_i nextUsed
    refine List.isChain_cons_cons.mpr ⟨?_, tail⟩
    rintro ⟨-, nextFree⟩
    exact nextUsed nextFree

theorem mergeNext_eq_cons (cell : Cell) (rest : List Cell) :
    ∃ merged tail, mergeNext cell rest = merged :: tail ∧ merged.free = cell.free := by
  cases rest with
  | nil => exact ⟨cell, [], rfl, rfl⟩
  | cons next rest =>
      simp only [mergeNext]
      split
      · exact ⟨_, rest, rfl, rfl⟩
      · exact ⟨cell, next :: rest, rfl, rfl⟩

/-- Every block size is a multiple of the allocation granule. -/
def Granular (cells : List Cell) : Prop := ∀ cell ∈ cells, cell.size % 16 = 0

theorem mergeNext_granular {cell : Cell} {rest : List Cell}
    (head : cell.size % 16 = 0) (tail : Granular rest) :
    Granular (mergeNext cell rest) := by
  cases rest with
  | nil =>
      intro other member
      rw [List.mem_singleton.mp member]
      exact head
  | cons next rest =>
  have nextGranular := tail next List.mem_cons_self
  simp only [mergeNext]
  split
  · intro other member
    rcases List.mem_cons.mp member with rfl | later
    · dsimp only
      omega
    · exact tail other (List.mem_cons_of_mem _ later)
  · intro other member
    rcases List.mem_cons.mp member with rfl | later
    · exact head
    · exact tail other later

/-- The second merge step of `kfree`: a free block is swallowed by a free
predecessor, found through its back pointer. -/
theorem kfreeMergePrev_spec {front tail : List Cell} {cell : Cell}
    (chain : Chain memory 0 address (front ++ cell :: tail) 0) (nonnull : 0 < address)
    (bound : stop address (front ++ cell :: tail) ≤ 2 ^ 64)
    (free : cell.free = true) (granular : Granular (front ++ cell :: tail))
    (frontCoalesced : Coalesced front) (tailCoalesced : Coalesced (cell :: tail)) :
    ∃ cells,
      Chain (kfreeMergePrev memory (stop address front)) 0 address cells 0 ∧
        stop address cells = stop address (front ++ cell :: tail) ∧
        Granular cells ∧ Coalesced cells ∧
        used address cells = used address (front ++ cell :: tail) := by
  rcases List.eq_nil_or_concat front with rfl | ⟨init, last, rfl⟩
  · have noPrev : (HeapBlock.read memory address).prev = 0 := by
      rw [chain.1]
    refine ⟨cell :: tail, ?_, rfl, granular, tailCoalesced, rfl⟩
    simp only [stop, kfreeMergePrev, noPrev]
    exact chain
  simp only [List.concat_eq_append] at *
  rw [List.append_assoc] at chain bound granular ⊢
  obtain ⟨initChain, suffix⟩ := chain_append.mp chain
  obtain ⟨initCoalesced, -, boundary⟩ := List.isChain_append.mp frontCoalesced
  have initStart := le_stop address init
  have blockAddress : stop address (init ++ [last]) =
      stop address init + 32 + last.size := by
    rw [stop_append]
    rfl
  rw [blockAddress]
  have suffixBound : stop (stop address init) (last :: cell :: tail) ≤ 2 ^ 64 := by
    rw [stop_append] at bound
    exact bound
  by_cases lastFree : last.free = true
  · rw [kfreeMergePrev_of_free suffix suffixBound (by omega) lastFree]
    refine ⟨init ++ ⟨last.size + 32 + cell.size, last.free⟩ :: tail, ?_, ?_, ?_, ?_, ?_⟩
    · refine chain_append.mpr ⟨?_, suffix.absorb suffixBound⟩
      exact initChain.congr (agreeOn_absorb (Nat.le_refl _) (by omega))
    · rw [stop_append, stop_append]
      simp only [List.cons_append, List.nil_append, stop]
      congr 1
      omega
    · intro other member
      have lastGranular := granular last (by simp)
      have cellGranular := granular cell (by simp)
      rcases List.mem_append.mp member with inInit | inTail
      · exact granular other (List.mem_append_left _ inInit)
      · rcases List.mem_cons.mp inTail with rfl | later
        · dsimp only
          omega
        · exact granular other (by simp [later])
    · -- the new block is free like both of its halves, so its neighbours are in use
      refine List.isChain_append.mpr ⟨initCoalesced, ?_, ?_⟩
      · cases tail with
        | nil => exact List.IsChain.singleton _
        | cons next rest =>
            have pair := List.isChain_cons_cons.mp tailCoalesced
            refine List.isChain_cons_cons.mpr ⟨?_, pair.2⟩
            rintro ⟨-, nextFree⟩
            exact pair.1 ⟨free, nextFree⟩
      · intro left leftLast right rightFirst bothFree
        exact boundary left leftLast last (by simp) ⟨bothFree.1, lastFree⟩
    · rw [used_append, used_append]
      simp only [List.cons_append, List.nil_append, used, lastFree, free, if_true]
      congr 2
      omega
  have back : (HeapBlock.read memory (stop address init + 32 + last.size)).prev =
      stop address init := by
    rw [suffix.2.1]
  have inUse : (HeapBlock.read memory (stop address init)).free = last.free := by
    rw [suffix.1]
  refine ⟨init ++ ([last] ++ cell :: tail), ?_, rfl, granular, ?_, rfl⟩
  · simp only [kfreeMergePrev, back, inUse, lastFree]
    simp only [and_false, if_false, Bool.false_eq_true]
    exact chain
  · rw [← List.append_assoc]
    refine List.isChain_append.mpr ⟨frontCoalesced, tailCoalesced, ?_⟩
    intro left leftLast right rightFirst bothFree
    simp only [List.getLast?_append, List.getLast?_singleton, Option.some_or,
      Option.mem_def, Option.some.injEq] at leftLast
    exact lastFree (leftLast ▸ bothFree.1)

/-- `kfree` on a block of the list: the cells that remain tile the same region,
have no free neighbours, and are in use exactly where they were before, the
freed block apart. -/
theorem kfree_spec {front back : List Cell} {cell : Cell}
    (chain : Chain memory 0 address (front ++ cell :: back) 0) (nonnull : 0 < address)
    (bound : stop address (front ++ cell :: back) ≤ 2 ^ 64)
    (granular : Granular (front ++ cell :: back))
    (coalesced : Coalesced (front ++ cell :: back)) :
    ∃ cells,
      Chain (kfreeMergePrev (kfreeMergeNext
          (HeapBlock.setFree memory (stop address front) true) (stop address front))
          (stop address front)) 0 address cells 0 ∧
        stop address cells = stop address (front ++ cell :: back) ∧
        Granular cells ∧ Coalesced cells ∧
        used address cells =
          used address front ++ used (stop address front + 32 + cell.size) back := by
  obtain ⟨frontChain, suffix⟩ := chain_append.mp chain
  obtain ⟨frontCoalesced, suffixCoalesced, -⟩ := List.isChain_append.mp coalesced
  rw [stop_append] at bound
  -- the freed block takes in its successor first
  have marked : Chain (HeapBlock.setFree memory (stop address front) true)
      (lastBlock 0 address front) (stop address front) (⟨cell.size, true⟩ :: back) 0 :=
    suffix.setFree
  obtain ⟨suffixChain, frame⟩ := kfreeMergeNext_spec address marked bound
  have frontKept := frontChain.congr
    (frame.trans (HeapBlock.agreeOn_setFree (Or.inl (Nat.le_refl _))))
  have sameStop := stop_mergeNext (stop address front) ⟨cell.size, true⟩ back
  have sameUsed : used (stop address front) (mergeNext ⟨cell.size, true⟩ back) =
      used (stop address front + 32 + cell.size) back :=
    used_mergeNext rfl
  have backCoalesced : Coalesced back := suffixCoalesced.tail
  have merged : Coalesced (mergeNext ⟨cell.size, true⟩ back) :=
    mergeNext_coalesced backCoalesced
  have mergedGranular : Granular (mergeNext ⟨cell.size, true⟩ back) :=
    mergeNext_granular (granular cell (by simp))
      fun other member => granular other (by simp [member])
  obtain ⟨first, tail, shape, free⟩ := mergeNext_eq_cons ⟨cell.size, true⟩ back
  rw [shape] at suffixChain sameStop sameUsed merged mergedGranular
  -- then its predecessor takes it in
  have whole : stop address (front ++ first :: tail) =
      stop address (front ++ cell :: back) := by
    rw [stop_append, stop_append, sameStop]
    rfl
  have joined : Chain (kfreeMergeNext
      (HeapBlock.setFree memory (stop address front) true) (stop address front))
      0 address (front ++ first :: tail) 0 :=
    chain_append.mpr ⟨frontKept, suffixChain⟩
  obtain ⟨cells, cellsChain, cellsStop, cellsGranular, cellsCoalesced, cellsUsed⟩ :=
    kfreeMergePrev_spec joined nonnull (by rw [whole, stop_append]; exact bound) free
      (by
        intro other member
        rcases List.mem_append.mp member with inFront | inTail
        · exact granular other (List.mem_append_left _ inFront)
        · exact mergedGranular other inTail)
      frontCoalesced merged
  refine ⟨cells, cellsChain, cellsStop.trans whole, cellsGranular, cellsCoalesced, ?_⟩
  rw [cellsUsed, used_append, sameUsed]

end Cell

/-! ## Runs -/

/-- A pointer handed out by `kmalloc` and not yet freed, with the size asked for. -/
structure Live where
  ptr : Nat
  requested : Nat

/-- The heap together with the allocations its clients hold. -/
structure HeapState where
  heap : Heap
  live : List Live

namespace HeapState

/-- A client calls `kmalloc` and keeps the pointer unless it is null. -/
def malloc (state : HeapState) (size : Nat) : HeapState :=
  let result := kmalloc state.heap size
  { heap := result.2
    live := if result.1 = 0 then state.live else ⟨result.1, size⟩ :: state.live }

/-- A client gives a pointer back with `kfree`. -/
def free (state : HeapState) (ptr : Nat) : HeapState :=
  { heap := kfree state.heap ptr
    live := state.live.filter fun allocation => allocation.ptr ≠ ptr }

/-- The states reachable from `heap_init`: requests between one byte and the
heap size, frees of live pointers, and any stores of the clients into their own
allocations. -/
inductive Reachable (memory : ByteMemory) (start size : Nat) : HeapState → Prop where
  | init : Reachable memory start size ⟨heapInit memory start size, []⟩
  | malloc {state : HeapState} (requested : Nat) :
      Reachable memory start size state → 1 ≤ requested → requested ≤ size →
      Reachable memory start size (state.malloc requested)
  | free {state : HeapState} {allocation : Live} :
      Reachable memory start size state → allocation ∈ state.live →
      Reachable memory start size (state.free allocation.ptr)
  | store {state : HeapState} {allocation : Live} (contents : ByteMemory) :
      Reachable memory start size state → allocation ∈ state.live →
      (∀ address, address < allocation.ptr ∨
          allocation.ptr + allocation.requested ≤ address →
        contents address = state.heap.memory address) →
      Reachable memory start size
        { state with heap := { state.heap with memory := contents } }

/-- The heap invariant, for the cells that describe the block list. -/
structure Invariant (start size : Nat) (state : HeapState) (cells : List Cell) :
    Prop where
  head : state.heap.head = start
  region : state.heap.size = size
  chain : Cell.Chain state.heap.memory 0 start cells 0
  tiles : Cell.stop start cells = start + size
  granular : Cell.Granular cells
  coalesced : Cell.Coalesced cells
  ofLive : ∀ allocation ∈ state.live, ∃ block cell,
    (block, cell) ∈ Cell.used start cells ∧ allocation.ptr = block + 32 ∧
      allocation.requested ≤ cell.size
  ofUsed : ∀ block cell, (block, cell) ∈ Cell.used start cells →
    ∃ allocation ∈ state.live, allocation.ptr = block + 32
  distinct : state.live.Pairwise fun left right => left.ptr ≠ right.ptr

/-- A heap region: a non-null, 16-byte-aligned range of the address space whose
size is a multiple of 16, holds a header, and cannot overflow the size check of
`kmalloc`. -/
structure Region (start size : Nat) : Prop where
  nonnull : 0 < start
  aligned : start % 16 = 0
  granular : size % 16 = 0
  holdsHeader : 32 ≤ size
  inside : start + size ≤ 2 ^ 64
  noWrap : size + 32 < 2 ^ 64

variable {start size : Nat} {state : HeapState} {cells : List Cell}

/-- `heap_init` sets up the single free block. -/
theorem invariant_init (region : Region start size) (memory : ByteMemory) :
    Invariant start size ⟨heapInit memory start size, []⟩ [⟨size - 32, true⟩] := by
  have holds := region.holdsHeader
  have inside := region.inside
  have granular := region.granular
  have payload : (size + 2 ^ 64 - 32) % 2 ^ 64 = size - 32 := by
    rw [show size + 2 ^ 64 - 32 = size - 32 + 2 ^ 64 by omega, Nat.add_mod_right,
      Nat.mod_eq_of_lt (by omega)]
  have header : HeapBlock.read (heapInit memory start size).memory start =
      ⟨size - 32, 0, 0, true⟩ := by
    simp only [heapInit, headerSize, word64, payload]
    exact Cell.read_initialised (by omega) (by omega) (by omega)
  refine ⟨rfl, rfl, ⟨header, trivial⟩, ?_, ?_, List.IsChain.singleton _, ?_, ?_,
    List.Pairwise.nil⟩
  · simp only [Cell.stop]
    omega
  · intro cell member
    rw [List.mem_singleton.mp member]
    dsimp only
    omega
  · intro allocation member
    cases member
  · intro block cell member
    simp [Cell.used] at member

theorem alignUp16_eq {requested : Nat} (noWrap : requested + 15 < 2 ^ 64) :
    requested ≤ alignUp16 requested ∧ alignUp16 requested < requested + 16 ∧
      alignUp16 requested % 16 = 0 := by
  simp only [alignUp16, word64, Nat.mod_eq_of_lt noWrap]
  omega

/-- Splitting a free cell keeps free neighbours apart. -/
theorem coalesced_split {front back : List Cell} {cell : Cell} {aligned rest : Nat}
    (coalesced : Cell.Coalesced (front ++ cell :: back)) (free : cell.free = true) :
    Cell.Coalesced (front ++ ⟨aligned, false⟩ :: ⟨rest, true⟩ :: back) := by
  obtain ⟨frontCoalesced, suffix, -⟩ := List.isChain_append.mp coalesced
  refine List.isChain_append.mpr ⟨frontCoalesced, ?_, ?_⟩
  · refine List.isChain_cons_cons.mpr ⟨by simp, ?_⟩
    cases back with
    | nil => exact List.IsChain.singleton _
    | cons next back =>
        have pair := List.isChain_cons_cons.mp suffix
        refine List.isChain_cons_cons.mpr ⟨?_, pair.2⟩
        rintro ⟨-, nextFree⟩
        exact pair.1 ⟨free, nextFree⟩
  · intro left _ right first
    simp only [List.head?_cons, Option.mem_def, Option.some.injEq] at first
    simp [← first]

/-- Splitting a free cell adds one block in use. -/
theorem used_split {address aligned : Nat} {front back : List Cell} {cell : Cell}
    (free : cell.free = true) (room : aligned + 32 ≤ cell.size) :
    Cell.used address
        (front ++ ⟨aligned, false⟩ :: ⟨cell.size - aligned - 32, true⟩ :: back) =
      Cell.used address front ++ (Cell.stop address front, ⟨aligned, false⟩) ::
        Cell.used (Cell.stop address front + 32 + cell.size) back ∧
    Cell.used address (front ++ cell :: back) =
      Cell.used address front ++
        Cell.used (Cell.stop address front + 32 + cell.size) back := by
  constructor
  · rw [Cell.used_append]
    simp only [Cell.used, if_true, Bool.false_eq_true, if_false]
    congr 3
    omega
  · rw [Cell.used_append]
    simp only [Cell.used, free, if_true]

/-- With the block found at the end of `front`, `kmalloc` turns the free cell
into the new allocation and the remainder behind it. -/
theorem Invariant.split {front back : List Cell} {cell : Cell}
    {requested aligned : Nat}
    (invariant : Invariant start size state (front ++ cell :: back))
    (region : Region start size) (free : cell.free = true)
    (room : aligned + 32 ≤ cell.size) (covers : requested ≤ aligned)
    (granule : aligned % 16 = 0) :
    Invariant start size
      { heap := { state.heap with
          memory := kmallocSplit state.heap.memory (Cell.stop start front) aligned }
        live := ⟨Cell.stop start front + 32, requested⟩ :: state.live }
      (front ++ ⟨aligned, false⟩ :: ⟨cell.size - aligned - 32, true⟩ :: back) := by
  have inside := region.inside
  obtain ⟨frontChain, suffix⟩ := Cell.chain_append.mp invariant.chain
  have tiles := invariant.tiles
  rw [Cell.stop_append] at tiles
  have suffixBound : Cell.stop (Cell.stop start front) (cell :: back) ≤ 2 ^ 64 := by
    omega
  obtain ⟨usedAfter, usedBefore⟩ :=
    @used_split start aligned front back cell free room
  have ofLive := invariant.ofLive
  have ofUsed := invariant.ofUsed
  rw [usedBefore] at ofLive ofUsed
  refine ⟨invariant.head, invariant.region, ?_, ?_, ?_,
    coalesced_split invariant.coalesced free, ?_, ?_, ?_⟩
  · refine Cell.chain_append.mpr ⟨?_, suffix.split room suffixBound⟩
    exact frontChain.congr (Cell.agreeOn_kmallocSplit suffix room suffixBound)
  · rw [Cell.stop_append]
    simp only [Cell.stop] at tiles ⊢
    rw [← tiles]
    congr 1
    omega
  · have cellGranular := invariant.granular cell (by simp)
    intro other member
    simp only [List.mem_append, List.mem_cons] at member
    rcases member with inFront | rfl | rfl | inBack
    · exact invariant.granular other (List.mem_append_left _ inFront)
    · exact granule
    · dsimp only
      omega
    · exact invariant.granular other (by simp [inBack])
  · rw [usedAfter]
    intro allocation member
    rcases List.mem_cons.mp member with rfl | old
    · exact ⟨_, _, List.mem_append_right _ List.mem_cons_self, rfl, covers⟩
    · obtain ⟨block, owner, inUse, pointer, enough⟩ := ofLive allocation old
      refine ⟨block, owner, ?_, pointer, enough⟩
      rcases List.mem_append.mp inUse with inFront | inBack
      · exact List.mem_append_left _ inFront
      · exact List.mem_append_right _ (List.mem_cons_of_mem _ inBack)
  · rw [usedAfter]
    intro block owner inUse
    simp only [List.mem_append, List.mem_cons, Prod.mk.injEq] at inUse
    rcases inUse with inFront | ⟨rfl, rfl⟩ | inBack
    · obtain ⟨allocation, member, pointer⟩ :=
        ofUsed block owner (List.mem_append_left _ inFront)
      exact ⟨allocation, List.mem_cons_of_mem _ member, pointer⟩
    · exact ⟨_, List.mem_cons_self, rfl⟩
    · obtain ⟨allocation, member, pointer⟩ :=
        ofUsed block owner (List.mem_append_right _ inBack)
      exact ⟨allocation, List.mem_cons_of_mem _ member, pointer⟩
  -- the new pointer differs from every live one: its block was free until now
  refine List.Pairwise.cons ?_ invariant.distinct
  intro allocation member equal
  obtain ⟨block, owner, inUse, pointer, -⟩ := ofLive allocation member
  have blockEq : block = Cell.stop start front := by
    dsimp only at equal
    omega
  rcases List.mem_append.mp inUse with inFront | inBack
  · have bounds := Cell.used_bounds inFront
    omega
  · have bounds := Cell.used_bounds inBack
    omega

/-- A request is served by splitting a free block, or fails and changes nothing. -/
theorem Invariant.malloc (invariant : Invariant start size state cells)
    (region : Region start size) {requested : Nat} (positive : 1 ≤ requested)
    (within : requested ≤ size) :
    ∃ cells', Invariant start size (state.malloc requested) cells' := by
  have noWrap := region.noWrap
  have inside := region.inside
  have nonnull := region.nonnull
  have sizeGranular := region.granular
  obtain ⟨lower, upper, granule⟩ := @alignUp16_eq requested (by omega)
  have bound : Cell.stop start cells ≤ 2 ^ 64 := by
    rw [invariant.tiles]
    exact inside
  have short := Cell.length_le_stop start cells
  rw [invariant.tiles] at short
  have nonempty : Cell.link start cells 0 = start := by
    cases cells with
    | nil =>
        have tiles := invariant.tiles
        have holds := region.holdsHeader
        simp only [Cell.stop] at tiles
        omega
    | cons cell rest => rfl
  have enough : cells.length ≤ size + 1 := by omega
  have loop := Cell.kmallocLoop_spec invariant.chain nonnull bound
    (show alignUp16 requested + 32 < 2 ^ 64 by omega) enough
  rw [nonempty] at loop
  have entered : ¬(state.heap.head = 0 ∨ requested = 0) := by
    rw [invariant.head]
    omega
  have unfolded : kmalloc state.heap requested =
      ((kmallocLoop state.heap.memory (alignUp16 requested) (state.heap.size + 1)
          state.heap.head).1,
        { state.heap with
          memory := (kmallocLoop state.heap.memory (alignUp16 requested)
            (state.heap.size + 1) state.heap.head).2 }) := by
    simp only [kmalloc, if_neg entered]
  have sameLoop : kmallocLoop state.heap.memory (alignUp16 requested)
      (state.heap.size + 1) state.heap.head =
        kmallocLoop state.heap.memory (alignUp16 requested) (size + 1) start := by
    rw [invariant.head, invariant.region]
  simp only [HeapState.malloc, unfolded, sameLoop]
  rcases loop with missing | ⟨front, cell, back, rfl, free, room, result⟩
  · simp only [missing, if_true]
    exact ⟨cells, invariant⟩
  · simp only [result]
    rw [if_neg (by omega)]
    exact ⟨_, invariant.split region free room lower granule⟩

/-- Freeing a live pointer takes its block out of use and merges it with its
free neighbours. -/
theorem Invariant.free (invariant : Invariant start size state cells)
    (region : Region start size) {allocation : Live}
    (isLive : allocation ∈ state.live) :
    ∃ cells', Invariant start size (state.free allocation.ptr) cells' := by
  have inside := region.inside
  have nonnull := region.nonnull
  obtain ⟨block, cell, inUse, pointer, -⟩ := invariant.ofLive allocation isLive
  obtain ⟨front, back, rfl, rfl, notFree⟩ := Cell.exists_split_of_mem_used inUse
  have frontStart := Cell.le_stop start front
  have bounds := Cell.used_bounds inUse
  rw [invariant.tiles] at bounds
  obtain ⟨cells, chain, stopEq, granular, coalesced, usedEq⟩ :=
    Cell.kfree_spec invariant.chain nonnull
      (by rw [invariant.tiles]; exact inside) invariant.granular invariant.coalesced
  have usedBefore : Cell.used start (front ++ cell :: back) =
      Cell.used start front ++ (Cell.stop start front, cell) ::
        Cell.used (Cell.stop start front + 32 + cell.size) back := by
    rw [Cell.used_append]
    simp only [Cell.used, notFree, Bool.false_eq_true, if_false]
  have entered : ¬(allocation.ptr = 0 ∨ state.heap.head = 0) := by
    rw [pointer, invariant.head]
    omega
  have blockOf : (allocation.ptr + word64 - headerSize) % word64 =
      Cell.stop start front := by
    rw [pointer, show Cell.stop start front + 32 + word64 - headerSize =
      Cell.stop start front + word64 by simp only [headerSize, word64]; omega,
      Nat.add_mod_right, Nat.mod_eq_of_lt (by simp only [word64]; omega)]
  have unfolded : kfree state.heap allocation.ptr =
      { state.heap with
        memory := kfreeMergePrev (kfreeMergeNext (HeapBlock.setFree state.heap.memory
          (Cell.stop start front) true) (Cell.stop start front))
          (Cell.stop start front) } := by
    rw [kfree, if_neg entered, blockOf]
  have ofLive := invariant.ofLive
  have ofUsed := invariant.ofUsed
  rw [usedBefore] at ofLive ofUsed
  refine ⟨cells, ?_⟩
  rw [HeapState.free, unfolded]
  refine ⟨invariant.head, invariant.region, ?_, stopEq.trans invariant.tiles,
    granular, coalesced, ?_, ?_, invariant.distinct.filter _⟩
  · dsimp only
    exact chain
  · rw [usedEq]
    intro other member
    obtain ⟨old, different⟩ := List.mem_filter.mp member
    obtain ⟨owner, ownerCell, ownerUsed, ownerPtr, enough⟩ := ofLive other old
    refine ⟨owner, ownerCell, ?_, ownerPtr, enough⟩
    simp only [List.mem_append, List.mem_cons, Prod.mk.injEq] at ownerUsed ⊢
    rcases ownerUsed with inFront | ⟨same, -⟩ | inBack
    · exact Or.inl inFront
    · simp [pointer, ownerPtr, same] at different
    · exact Or.inr inBack
  rw [usedEq]
  intro owner ownerCell ownerUsed
  have kept : (owner, ownerCell) ∈ Cell.used start front ++
      (Cell.stop start front, cell) ::
        Cell.used (Cell.stop start front + 32 + cell.size) back := by
    rcases List.mem_append.mp ownerUsed with inFront | inBack
    · exact List.mem_append_left _ inFront
    · exact List.mem_append_right _ (List.mem_cons_of_mem _ inBack)
  obtain ⟨other, member, otherPtr⟩ := ofUsed owner ownerCell kept
  refine ⟨other, List.mem_filter.mpr ⟨member, ?_⟩, otherPtr⟩
  -- the remaining blocks lie strictly before or after the freed one
  have elsewhere : owner ≠ Cell.stop start front := by
    rcases List.mem_append.mp ownerUsed with inFront | inBack
    · have ownerBounds := Cell.used_bounds inFront
      omega
    · have ownerBounds := Cell.used_bounds inBack
      omega
  rw [otherPtr, pointer]
  simp only [ne_eq, Nat.add_right_cancel_iff, decide_not, Bool.not_eq_eq_eq_not,
    Bool.not_true, decide_eq_false_iff_not]
  exact elsewhere

/-- A client store into its own allocation misses every header. -/
theorem Invariant.store (invariant : Invariant start size state cells)
    {allocation : Live} (isLive : allocation ∈ state.live) {contents : ByteMemory}
    (confined : ∀ address, address < allocation.ptr ∨
        allocation.ptr + allocation.requested ≤ address →
      contents address = state.heap.memory address) :
    Invariant start size
      { state with heap := { state.heap with memory := contents } } cells := by
  obtain ⟨block, cell, inUse, pointer, enough⟩ := invariant.ofLive allocation isLive
  obtain ⟨front, back, rfl, rfl, -⟩ := Cell.exists_split_of_mem_used inUse
  obtain ⟨frontChain, header, tail⟩ := Cell.chain_append.mp invariant.chain
  have agree : ∀ {low high : Nat},
      high ≤ Cell.stop start front + 32 ∨
        Cell.stop start front + 32 + cell.size ≤ low →
      ByteMemory.AgreeOn contents state.heap.memory low high := by
    intro low high apart address above below
    exact confined address (by omega)
  refine ⟨invariant.head, invariant.region, ?_, invariant.tiles, invariant.granular,
    invariant.coalesced, invariant.ofLive, invariant.ofUsed, invariant.distinct⟩
  refine Cell.chain_append.mpr ⟨frontChain.congr (agree (by omega)), ?_, ?_⟩
  · rw [← header]
    exact HeapBlock.read_congr (agree (by omega))
  · exact tail.congr (agree (by omega))

theorem Reachable.invariant {memory : ByteMemory}
    (reachable : Reachable memory start size state) (region : Region start size) :
    ∃ cells, Invariant start size state cells := by
  induction reachable with
  | init => exact ⟨_, invariant_init region memory⟩
  | malloc requested _ positive within ih =>
      obtain ⟨cells, invariant⟩ := ih
      exact invariant.malloc region positive within
  | free _ isLive ih =>
      obtain ⟨cells, invariant⟩ := ih
      exact invariant.free region isLive
  | store contents _ isLive confined ih =>
      obtain ⟨cells, invariant⟩ := ih
      exact ⟨cells, invariant.store isLive confined⟩

/-! ## What the invariant gives the clients -/

/-- Addresses of the headers of a run of cells. -/
def headers (address : Nat) : List Cell → List Nat
  | [] => []
  | cell :: rest => address :: headers (address + 32 + cell.size) rest

theorem headers_append (address : Nat) (left right : List Cell) :
    headers address (left ++ right) =
      headers address left ++ headers (Cell.stop address left) right := by
  induction left generalizing address with
  | nil => rfl
  | cons cell rest ih =>
      simp only [List.cons_append, headers, Cell.stop]
      rw [ih]

theorem headers_bounds {address header : Nat} {cells : List Cell}
    (member : header ∈ headers address cells) :
    address ≤ header ∧ header + 32 ≤ Cell.stop address cells := by
  induction cells generalizing address with
  | nil => simp [headers] at member
  | cons cell rest ih =>
  have tail := Cell.le_stop (address + 32 + cell.size) rest
  simp only [headers, List.mem_cons] at member
  simp only [Cell.stop]
  rcases member with rfl | later
  · omega
  · have bounds := ih later
    omega

/-- The size of a live allocation, as its block header records it. -/
def extent (state : HeapState) (allocation : Live) : Nat :=
  (HeapBlock.read state.heap.memory (allocation.ptr - 32)).size

/-- What holds of the heap and its clients: the block list tiles the region in
address order with mutually inverse links, free blocks are never neighbours,
live allocations are aligned, large enough, and apart from each other and from
every header, and with nothing live the initial block is restored. -/
structure Sound (start size : Nat) (state : HeapState) (cells : List Cell) : Prop where
  linked : state.heap.head = start ∧ Cell.Chain state.heap.memory 0 start cells 0
  tiles : Cell.stop start cells = start + size
  coalesced : Cell.Coalesced cells
  aligned : ∀ allocation ∈ state.live, allocation.ptr % 16 = 0
  large : ∀ allocation ∈ state.live, allocation.requested ≤ state.extent allocation
  apart : state.live.Pairwise fun left right =>
    left.ptr + state.extent left ≤ right.ptr ∨ right.ptr + state.extent right ≤ left.ptr
  clear : ∀ allocation ∈ state.live, ∀ header ∈ headers start cells,
    header + 32 ≤ allocation.ptr ∨ allocation.ptr + state.extent allocation ≤ header
  restored : state.live = [] → cells = [⟨size - 32, true⟩]

theorem stop_granular {cells : List Cell} (granular : Cell.Granular cells)
    {address : Nat} (aligned : address % 16 = 0) : Cell.stop address cells % 16 = 0 := by
  induction cells generalizing address with
  | nil => exact aligned
  | cons cell rest ih =>
      have cellGranular := granular cell List.mem_cons_self
      exact ih (fun other member => granular other (List.mem_cons_of_mem _ member))
        (by omega)

/-- A live allocation is the payload of a block whose header records its size. -/
theorem Invariant.block (invariant : Invariant start size state cells)
    {allocation : Live} (isLive : allocation ∈ state.live) :
    ∃ front cell back, cells = front ++ cell :: back ∧ cell.free = false ∧
      allocation.ptr = Cell.stop start front + 32 ∧
      state.extent allocation = cell.size ∧ allocation.requested ≤ cell.size := by
  obtain ⟨block, cell, inUse, pointer, enough⟩ := invariant.ofLive allocation isLive
  obtain ⟨front, back, rfl, rfl, notFree⟩ := Cell.exists_split_of_mem_used inUse
  refine ⟨front, cell, back, rfl, notFree, pointer, ?_, enough⟩
  have header := (Cell.chain_append.mp invariant.chain).2.1
  rw [extent, pointer, Nat.add_sub_cancel, header]

/-- Two different splits of one list of cells put one cell before the other. -/
theorem split_ordered {address : Nat} {front front' back back' : List Cell}
    {cell cell' : Cell} (same : front ++ cell :: back = front' ++ cell' :: back')
    (different : Cell.stop address front ≠ Cell.stop address front') :
    Cell.stop address front + 32 + cell.size ≤ Cell.stop address front' ∨
      Cell.stop address front' + 32 + cell'.size ≤ Cell.stop address front := by
  rcases List.append_eq_append_iff.mp same with ⟨middle, rfl, rest⟩ | ⟨middle, rfl, rest⟩
  · cases middle with
    | nil => simp at different
    | cons head middle =>
        simp only [List.cons_append, List.cons.injEq] at rest
        left
        rw [Cell.stop_append, ← rest.1]
        exact Cell.le_stop _ middle
  · cases middle with
    | nil => simp at different
    | cons head middle =>
        simp only [List.cons_append, List.cons.injEq] at rest
        right
        rw [Cell.stop_append, ← rest.1]
        exact Cell.le_stop _ middle

/-- With no block in use, merging has left a single free block. -/
theorem single_of_unused {address : Nat} {cells : List Cell}
    (unused : Cell.used address cells = []) (coalesced : Cell.Coalesced cells) :
    cells = [] ∨ ∃ length, cells = [⟨length, true⟩] := by
  have allFree : ∀ cell rest, ∀ address, Cell.used address (cell :: rest) = [] →
      cell.free = true ∧ Cell.used (address + 32 + cell.size) rest = [] := by
    intro cell rest address empty
    simp only [Cell.used] at empty
    split at empty
    · rename_i free
      exact ⟨free, empty⟩
    · cases empty
  cases cells with
  | nil => exact Or.inl rfl
  | cons first rest =>
  obtain ⟨firstFree, restUnused⟩ := allFree first rest address unused
  cases rest with
  | nil => exact Or.inr ⟨first.size, by rw [← firstFree]⟩
  | cons second rest =>
      have secondFree := (allFree second rest _ restUnused).1
      exact ((List.isChain_cons_cons.mp coalesced).1 ⟨firstFree, secondFree⟩).elim

/-- Whatever the interleaving of requests, frees and client stores, the heap
stays sound. -/
theorem heap_sound_of_reachable {memory : ByteMemory}
    (region : Region start size) (reachable : Reachable memory start size state) :
    ∃ cells, Sound start size state cells := by
  obtain ⟨cells, invariant⟩ := reachable.invariant region
  refine ⟨cells, ⟨invariant.head, invariant.chain⟩, invariant.tiles,
    invariant.coalesced, ?_, ?_, ?_, ?_, ?_⟩
  · intro allocation isLive
    obtain ⟨front, cell, back, rfl, -, pointer, -, -⟩ := invariant.block isLive
    have aligned := stop_granular
      (fun other member => invariant.granular other (List.mem_append_left _ member))
      region.aligned
    omega
  · intro allocation isLive
    obtain ⟨front, cell, back, -, -, -, extentEq, enough⟩ := invariant.block isLive
    rw [extentEq]
    exact enough
  · refine List.Pairwise.imp_of_mem ?_ invariant.distinct
    intro left right leftLive rightLive different
    obtain ⟨front, cell, back, shape, -, pointer, extentEq, -⟩ := invariant.block leftLive
    obtain ⟨front', cell', back', shape', -, pointer', extentEq', -⟩ :=
      invariant.block rightLive
    have ordered := @split_ordered start _ _ _ _ _ _ (shape.symm.trans shape')
      (by omega)
    rw [pointer, pointer', extentEq, extentEq']
    omega
  · intro allocation isLive header isHeader
    obtain ⟨front, cell, back, rfl, -, pointer, extentEq, -⟩ := invariant.block isLive
    rw [headers_append] at isHeader
    rw [pointer, extentEq]
    rcases List.mem_append.mp isHeader with inFront | inBack
    · have bounds := headers_bounds inFront
      omega
    · simp only [headers, List.mem_cons] at inBack
      rcases inBack with rfl | later
      · omega
      · have bounds := headers_bounds later
        omega
  intro nothingLive
  have unused : Cell.used start cells = [] := by
    rw [List.eq_nil_iff_forall_not_mem]
    rintro ⟨block, cell⟩ inUse
    obtain ⟨allocation, member, -⟩ := invariant.ofUsed block cell inUse
    rw [nothingLive] at member
    cases member
  have tiles := invariant.tiles
  have holds := region.holdsHeader
  rcases single_of_unused unused invariant.coalesced with rfl | ⟨length, rfl⟩
  · simp only [Cell.stop] at tiles
    omega
  · simp only [Cell.stop] at tiles
    rw [show length = size - 32 by omega]

/-- The heap that `memory_init` sets up. -/
def bootHeap : HeapState := ⟨heapInit (fun _ => 0) 0xFFFF900000000000 0x400000, []⟩

theorem bootHeap_region : Region 0xFFFF900000000000 0x400000 :=
  ⟨by decide, by decide, by decide, by decide, by decide, by decide⟩

/-- The first of two blocks is given back. -/
theorem heap_sound_after_boot :
    (((bootHeap.malloc 100).malloc 24).free 0xFFFF900000000020).live.length = 1 ∧
      ∃ cells, Sound 0xFFFF900000000000 0x400000
        (((bootHeap.malloc 100).malloc 24).free 0xFFFF900000000020) cells := by
  have held : ∃ allocation ∈ ((bootHeap.malloc 100).malloc 24).live,
      allocation.ptr = 0xFFFF900000000020 := by decide +kernel
  obtain ⟨allocation, member, place⟩ := held
  have start : Reachable (fun _ => 0) 0xFFFF900000000000 0x400000 bootHeap := .init
  have reached := ((start.malloc 100 (by decide) (by decide)).malloc 24 (by decide)
    (by decide)).free member
  rw [place] at reached
  exact ⟨by decide +kernel, heap_sound_of_reachable bootHeap_region reached⟩

/-- A 16-byte region is a multiple of 16 but has no room for a header: the size
of the only block wraps around, and no list of blocks tiles the region. -/
theorem heap_not_sound_in_short_region :
    Reachable (fun _ => 0) 4096 16 ⟨heapInit (fun _ => 0) 4096 16, []⟩ ∧
      ¬∃ cells, Sound 4096 16 ⟨heapInit (fun _ => 0) 4096 16, []⟩ cells := by
  refine ⟨.init, ?_⟩
  rintro ⟨cells, sound⟩
  have tiles := sound.tiles
  have chain := sound.linked.2
  cases cells with
  | nil => simp [Cell.stop] at tiles
  | cons cell rest =>
  have header : HeapBlock.read (heapInit (fun _ => 0) 4096 16).memory 4096 =
      ⟨2 ^ 64 - 16, 0, 0, true⟩ := by
    simp only [heapInit, headerSize, word64]
    exact Cell.read_initialised (by decide) (by decide) (by decide)
  have size : (HeapBlock.read (heapInit (fun _ => 0) 4096 16).memory 4096).size =
      cell.size := by
    rw [chain.1]
  rw [header] at size
  have tail := Cell.le_stop (4096 + 32 + cell.size) rest
  simp only [Cell.stop] at tiles
  dsimp only at size
  omega

end HeapState

end Charis.Memory
