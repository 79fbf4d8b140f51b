import Charis.Memory.HeapSafety
import Charis.Syscall.Calls

/-!
# Blocks of the heap behind descriptors

`fat32_vfs_finddir` makes a node in a block of the kernel heap for every file that it finds.
The calls that open, close and execute files are repeated here with the heap that they work on.
What a call finds out about its arguments and in a file comes with the call: it only decides
which way the call takes.
-/

namespace Charis.Syscall.NodeBlocks

open Charis.Exec
open Charis.Lib
open Charis.Memory
open Charis.Sched

/-- The kernel heap and the descriptors of all tasks. -/
structure Nodes where
  heap : HeapState
  fds : TaskId → Nat → Descriptor

/-- The callback `close` of a node, by what it does to the heap.  The static nodes have none,
and `fat32_vfs_finddir` sets none. -/
def closeCallback : Node → Option (HeapState → HeapState)
  | .device => none
  | .root => none
  | .file _ _ _ => none

/-- `if (node && node->close) node->close(node)`. -/
def closeNode (node : Option Node) (heap : HeapState) : HeapState :=
  match node.bind closeCallback with
  | none => heap
  | some close => close heap

/-- `fat32_vfs_finddir`, with the size and the first cluster that `fs_open` has found. -/
def finddir (name : List UInt8) (found : Option (Nat × Nat)) (heap : HeapState) :
    Option Node × HeapState :=
  match found with
  | none => (none, heap)
  | some (size, cluster) =>
      let child := (kmalloc heap.heap nodeSize).1
      (if child = 0 then none else some (.file name size cluster), heap.malloc nodeSize)

/-- `vfs_resolve`. -/
def resolve (path : List UInt8) (found : Option (Nat × Nat)) (heap : HeapState) :
    Option Node × HeapState :=
  if pathString path ∈ ["/dev/null", "/dev/zero", "/dev/kbd", "/dev/vga"] then
    (some .device, heap)
  else
    match path with
    | 47 :: first :: rest => finddir (first :: rest) found heap
    | _ => (some .root, heap)

/-- `fd_alloc`. -/
def fdAlloc (fds : Nat → Descriptor) (node : Node) (flags : Nat) :
    Option (Nat × (Nat → Descriptor)) :=
  ((List.range' 3 61).find? fun fd => (fds fd).node.isNone).map fun fd =>
    (fd, Function.update fds fd { node := some node, offset := 0, flags })

/-- Clear a descriptor, and close the node that it had. -/
def clearFd (state : HeapState × (Nat → Descriptor)) (fd : Nat) :
    HeapState × (Nat → Descriptor) :=
  (closeNode (state.2 fd).node state.1, Function.update state.2 fd {})

/-- `fd_close`. -/
def fdClose (state : HeapState × (Nat → Descriptor)) (fd : Int) :
    HeapState × (Nat → Descriptor) :=
  if fd < 0 ∨ 64 ≤ fd then state else clearFd state fd.toNat

/-- `fd_table_close_all`. -/
def fdTableCloseAll (state : HeapState × (Nat → Descriptor)) :
    HeapState × (Nat → Descriptor) :=
  let (heap, fds) := (List.range' 3 61).foldl clearFd state
  (heap, fun fd => if fd < 3 then { node := some .device } else fds fd)

/-- What `syscall_open_handler` finds out: whether the task may open files, the path if it could
be copied, and what `fs_open` finds under it. -/
structure OpenCall where
  capable : Bool
  path : Option (List UInt8)
  found : Option (Nat × Nat)

/-- `syscall_open_handler`. -/
def syscallOpen (call : OpenCall) (state : HeapState × (Nat → Descriptor)) :
    Int × HeapState × (Nat → Descriptor) :=
  if !call.capable then (-1, state)
  else
    match call.path with
    | none => (-1, state)
    | some path =>
        match resolve path call.found state.1 with
        | (none, heap) => (-1, heap, state.2)
        | (some node, heap) =>
            if !verifyPath path then (-1, heap, state.2)
            else
              match fdAlloc state.2 node 0 with
              | none => (-1, heap, state.2)
              | some (fd, fds) => (fd, heap, fds)

/-- What `elf_load` finds in a file: how many program headers it has, if its header is accepted,
and whether these are read and loaded. -/
structure Program where
  header : Option {count : Nat // 1 ≤ count ∧ count ≤ 128}
  loads : Bool

/-- The part of `elf_load` between opening and closing the descriptor. -/
def loadProgram (program : Program) (heap : HeapState) : Bool × HeapState :=
  match program.header with
  | none => (false, heap)
  | some count =>
      let phdrs := (kmalloc heap.heap (count * phdrSize)).1
      let heap := heap.malloc (count * phdrSize)
      if phdrs = 0 then (false, heap) else (program.loads, heap.free phdrs)

/-- Only files of the volume have the flag and the callback that `elf_load` asks for. -/
def readable : Node → Bool
  | .device | .root => false
  | .file _ _ _ => true

/-- `elf_load`. -/
def elfLoad (path : List UInt8) (found : Option (Nat × Nat)) (program : Program)
    (state : HeapState × (Nat → Descriptor)) : Bool × HeapState × (Nat → Descriptor) :=
  match resolve path found state.1 with
  | (none, heap) => (false, heap, state.2)
  | (some node, heap) =>
      if !readable node then (false, heap, state.2)
      else
        match fdAlloc state.2 node 0 with
        | none => (false, heap, state.2)
        | some (fd, fds) =>
            let (loaded, heap) := loadProgram program heap
            (loaded, fdClose (heap, fds) fd)

/-- What `syscall_exec_from_frame` finds out: whether the task may execute files, the path if it
could be copied, whether the two vectors could be, what `fs_open` finds under the path, what is
in the file, and whether the stack could be set up. -/
structure ExecCall where
  allowed : Bool
  path : Option (List UInt8)
  vectorsValid : Bool
  found : Option (Nat × Nat)
  program : Program
  stackReady : Bool

/-- `if (ptr) kfree(ptr)`. -/
def freeUnlessNull (heap : HeapState) (ptr : Nat) : HeapState :=
  if ptr = 0 then heap else heap.free ptr

/-- The part of `syscall_exec_from_frame` after the checks of the path. -/
def execFile (call : ExecCall) (path : List UInt8) (state : HeapState × (Nat → Descriptor)) :
    Bool × HeapState × (Nat → Descriptor) :=
  let strings := (kmalloc state.1.heap 4096).1
  let heap := state.1.malloc 4096
  let storage := (kmalloc heap.heap 4096).1
  let heap := heap.malloc 4096
  if strings = 0 ∨ storage = 0 then
    (false, freeUnlessNull (freeUnlessNull heap strings) storage, state.2)
  else if !call.vectorsValid then (false, (heap.free storage).free strings, state.2)
  else
    let (loaded, heap, fds) := elfLoad path call.found call.program (heap, state.2)
    (loaded && call.stackReady, (heap.free storage).free strings, fds)

/-- `syscall_exec_from_frame`: whether the file is executed. -/
def execFromFrame (call : ExecCall) (state : HeapState × (Nat → Descriptor)) :
    Bool × HeapState × (Nat → Descriptor) :=
  if !call.allowed then (false, state)
  else
    match call.path with
    | none => (false, state)
    | some path => if !verifyPath path then (false, state) else execFile call path state

inductive NodeEvent where
  | openFile (t : TaskId) (call : OpenCall)
  | close (t : TaskId) (fd : Int)
  | exec (t : TaskId) (call : ExecCall)
  | exit (t : TaskId)
  /-- The kernel writes into a block that it has. -/
  | store (contents : ByteMemory)

namespace Nodes

/-- What a call of a task works on. -/
def view (nodes : Nodes) (t : TaskId) : HeapState × (Nat → Descriptor) :=
  (nodes.heap, nodes.fds t)

/-- What a call of a task leaves. -/
def leave (nodes : Nodes) (t : TaskId) (state : HeapState × (Nat → Descriptor)) : Nodes where
  heap := state.1
  fds := Function.update nodes.fds t state.2

end Nodes

/-- One call of a task, or a store of the kernel into one of its blocks. -/
inductive NodeStep : Nodes → NodeEvent → Nodes → Prop
  | openFile (nodes : Nodes) (t : TaskId) (call : OpenCall) :
      NodeStep nodes (.openFile t call) (nodes.leave t (syscallOpen call (nodes.view t)).2)
  | close (nodes : Nodes) (t : TaskId) (fd : Int) :
      NodeStep nodes (.close t fd) (nodes.leave t (fdClose (nodes.view t) fd))
  | exec (nodes : Nodes) (t : TaskId) (call : ExecCall) :
      NodeStep nodes (.exec t call) (nodes.leave t (execFromFrame call (nodes.view t)).2)
  | exit (nodes : Nodes) (t : TaskId) :
      NodeStep nodes (.exit t) (nodes.leave t (fdTableCloseAll (nodes.view t)))
  | store (nodes : Nodes) (contents : ByteMemory) {block : Live} :
      block ∈ nodes.heap.live →
      (∀ address, address < block.ptr ∨ block.ptr + block.requested ≤ address →
        contents address = nodes.heap.heap.memory address) →
      NodeStep nodes (.store contents)
        { nodes with
          heap := { nodes.heap with heap := { nodes.heap.heap with memory := contents } } }

/-- The kernel heap that `memory_init` has set up, after any requests, frees and stores. -/
def KernelHeap (heap : HeapState) : Prop :=
  ∃ memory, HeapState.Reachable memory 0xFFFF900000000000 0x400000 heap

/-- The blocks in use. -/
def inUse (heap : HeapState) : Set Live := {block | block ∈ heap.live}

section Heap

variable {heap heap' : HeapState} {size : Nat} {left : Set Live}

theorem inUse_malloc_null (null : (kmalloc heap.heap size).1 = 0) :
    inUse (heap.malloc size) = inUse heap := by
  simp only [inUse, HeapState.malloc, null, if_true]

theorem inUse_malloc (block : (kmalloc heap.heap size).1 ≠ 0) :
    inUse (heap.malloc size) = insert ⟨(kmalloc heap.heap size).1, size⟩ (inUse heap) := by
  ext other
  simp only [inUse, HeapState.malloc, block, if_false, Set.mem_ofPred_eq, Set.mem_insert_iff,
    List.mem_cons]

theorem inUse_free (ptr : Nat) :
    inUse (heap.free ptr) = {block ∈ inUse heap | block.ptr ≠ ptr} := by
  ext block
  simp [inUse, HeapState.free]

theorem KernelHeap.malloc (kernel : KernelHeap heap) (least : 1 ≤ size)
    (most : size ≤ 0x400000) : KernelHeap (heap.malloc size) := by
  obtain ⟨memory, reachable⟩ := kernel
  exact ⟨memory, reachable.malloc size least most⟩

/-- A block that is handed out was not in use. -/
theorem KernelHeap.fresh (kernel : KernelHeap heap) (least : 1 ≤ size) (most : size ≤ 0x400000)
    (block : (kmalloc heap.heap size).1 ≠ 0) :
    ∀ other ∈ inUse heap, (kmalloc heap.heap size).1 ≠ other.ptr := by
  obtain ⟨memory, reachable⟩ := kernel.malloc least most
  obtain ⟨cells, invariant⟩ :=
    reachable.invariant ⟨by decide, by decide, by decide, by decide, by decide, by decide⟩
  have distinct := invariant.distinct
  simp only [HeapState.malloc, block, if_false, List.pairwise_cons] at distinct
  exact distinct.1

/-- Between two states of the heap the blocks `left` have come into use, and no others. -/
structure Leaves (heap heap' : HeapState) (left : Set Live) : Prop where
  kernel : KernelHeap heap'
  inUse : inUse heap' = inUse heap ∪ left
  fresh : ∀ block ∈ left, ∀ other ∈ NodeBlocks.inUse heap, block.ptr ≠ other.ptr

theorem Leaves.refl (kernel : KernelHeap heap) : Leaves heap heap ∅ :=
  ⟨kernel, (Set.union_empty _).symm, fun _ member => member.elim⟩

/-- A request that fails leaves nothing. -/
theorem Leaves.null (kernel : KernelHeap heap) (least : 1 ≤ size) (most : size ≤ 0x400000)
    (null : (kmalloc heap.heap size).1 = 0) : Leaves heap (heap.malloc size) ∅ :=
  ⟨kernel.malloc least most, (inUse_malloc_null null).trans (Set.union_empty _).symm,
    fun _ member => member.elim⟩

theorem Leaves.block (kernel : KernelHeap heap) (least : 1 ≤ size) (most : size ≤ 0x400000)
    (block : (kmalloc heap.heap size).1 ≠ 0) :
    Leaves heap (heap.malloc size) {⟨(kmalloc heap.heap size).1, size⟩} := by
  refine ⟨kernel.malloc least most, ?_, ?_⟩
  · rw [inUse_malloc block, Set.union_singleton]
  · rintro other rfl
    exact kernel.fresh least most block

/-- A block that is freed in the end leaves what came into use while it was. -/
theorem Leaves.scope (kernel : KernelHeap heap) (least : 1 ≤ size) (most : size ≤ 0x400000)
    (block : (kmalloc heap.heap size).1 ≠ 0) (body : Leaves (heap.malloc size) heap' left) :
    Leaves heap (heap'.free (kmalloc heap.heap size).1) left := by
  have fresh := kernel.fresh least most block
  have before := inUse_malloc block
  obtain ⟨⟨memory, reachable⟩, inUse, away⟩ := body
  rw [before] at inUse away
  have member : (⟨(kmalloc heap.heap size).1, size⟩ : Live) ∈ heap'.live := by
    have still : (⟨(kmalloc heap.heap size).1, size⟩ : Live) ∈ NodeBlocks.inUse heap' := by
      rw [inUse]
      exact .inl (Set.mem_insert _ _)
    exact still
  refine ⟨⟨memory, reachable.free member⟩, ?_, fun other inLeft earlier member =>
    away other inLeft earlier (Set.mem_insert_of_mem _ member)⟩
  rw [inUse_free, inUse]
  ext other
  simp only [Set.mem_ofPred_eq, Set.mem_union, Set.mem_insert_iff]
  constructor
  · rintro ⟨(rfl | earlier) | inLeft, different⟩
    · exact (different rfl).elim
    · exact .inl earlier
    · exact .inr inLeft
  · rintro (earlier | inLeft)
    · exact ⟨.inl (.inr earlier), (fresh other earlier).symm⟩
    · exact ⟨.inr inLeft, away other inLeft _ (Set.mem_insert _ _)⟩

theorem Leaves.trans_nothing {heap'' : HeapState} (first : Leaves heap heap' left)
    (second : Leaves heap' heap'' ∅) : Leaves heap heap'' left :=
  ⟨second.kernel, by rw [second.inUse, Set.union_empty, first.inUse], first.fresh⟩

end Heap

/-! ## What a call leaves -/

/-- A path that is looked up, with what `fs_open` finds under it, and the heap at that time. -/
structure Lookup where
  path : List UInt8
  found : Option (Nat × Nat)
  heap : HeapState

namespace Lookup

/-- A file is found, and the heap has a block for its node. -/
def Finds (lookup : Lookup) : Prop :=
  pathString lookup.path ∉ ["/dev/null", "/dev/zero", "/dev/kbd", "/dev/vga"] ∧
    (∃ first rest, lookup.path = 47 :: first :: rest) ∧ lookup.found.isSome = true ∧
    (kmalloc lookup.heap.heap nodeSize).1 ≠ 0

/-- The block of the node. -/
def left (lookup : Lookup) : Set Live :=
  {block | lookup.Finds ∧ block = ⟨(kmalloc lookup.heap.heap nodeSize).1, nodeSize⟩}

theorem left_of_finds {lookup : Lookup} (finds : lookup.Finds) :
    lookup.left = {⟨(kmalloc lookup.heap.heap nodeSize).1, nodeSize⟩} := by
  ext block
  exact and_iff_right finds

theorem left_of_not_finds {lookup : Lookup} (misses : ¬ lookup.Finds) : lookup.left = ∅ :=
  Set.eq_empty_of_forall_notMem fun _ member => misses member.1

end Lookup

/-- The path that a call has looked up, if it gets as far. -/
def lookedUp (nodes : Nodes) : NodeEvent → Option Lookup
  | .openFile _ call =>
      if call.capable then call.path.map fun path => ⟨path, call.found, nodes.heap⟩ else none
  | .exec _ call =>
      let strings := nodes.heap.malloc 4096
      if call.allowed ∧ call.vectorsValid ∧ (kmalloc nodes.heap.heap 4096).1 ≠ 0 ∧
          (kmalloc strings.heap 4096).1 ≠ 0 then
        (call.path.filter fun path => verifyPath path).map fun path =>
          ⟨path, call.found, strings.malloc 4096⟩
      else none
  | _ => none

/-- The call looks up a file that exists, with a block left for its node. -/
def MakesNode (nodes : Nodes) (event : NodeEvent) : Prop :=
  ∃ lookup ∈ lookedUp nodes event, lookup.Finds

/-- The blocks that a call leaves. -/
def leftBy (nodes : Nodes) (event : NodeEvent) : Set Live :=
  (lookedUp nodes event).elim ∅ Lookup.left

theorem leftBy_of_not_makesNode {nodes : Nodes} {event : NodeEvent}
    (none : ¬ MakesNode nodes event) : leftBy nodes event = ∅ := by
  rw [leftBy]
  rcases looked : lookedUp nodes event with - | lookup
  · rfl
  · exact Lookup.left_of_not_finds fun finds => none ⟨lookup, looked, finds⟩

theorem leftBy_of_makesNode {nodes : Nodes} {event : NodeEvent} (makes : MakesNode nodes event) :
    ∃ block, block ∈ leftBy nodes event := by
  obtain ⟨lookup, looked, finds⟩ := makes
  rw [leftBy, looked, Option.elim_some, Lookup.left_of_finds finds]
  exact ⟨_, rfl⟩

section Calls

variable {heap : HeapState} {fds : Nat → Descriptor} {path : List UInt8}
  {found : Option (Nat × Nat)}

theorem closeNode_eq (node : Option Node) (heap : HeapState) : closeNode node heap = heap := by
  cases node with
  | none => rfl
  | some node => cases node <;> rfl

theorem clearFd_heap (state : HeapState × (Nat → Descriptor)) (fd : Nat) :
    (clearFd state fd).1 = state.1 :=
  closeNode_eq _ _

theorem fdClose_heap (state : HeapState × (Nat → Descriptor)) (fd : Int) :
    (fdClose state fd).1 = state.1 := by
  rw [fdClose]
  split
  · rfl
  · exact clearFd_heap _ _

theorem clearFds_heap (numbers : List Nat) (state : HeapState × (Nat → Descriptor)) :
    (numbers.foldl clearFd state).1 = state.1 := by
  induction numbers generalizing state with
  | nil => rfl
  | cons fd numbers ih => exact (ih _).trans (clearFd_heap _ _)

theorem fdTableCloseAll_heap (state : HeapState × (Nat → Descriptor)) :
    (fdTableCloseAll state).1 = state.1 := by
  have cleared := clearFds_heap (List.range' 3 61) state
  rw [fdTableCloseAll]
  generalize (List.range' 3 61).foldl clearFd state = result at cleared ⊢
  exact cleared

theorem resolve_root
    (device : pathString path ∉ ["/dev/null", "/dev/zero", "/dev/kbd", "/dev/vga"])
    (volume : ¬ ∃ first rest, path = 47 :: first :: rest) :
    resolve path found heap = (some .root, heap) := by
  unfold resolve
  rw [if_neg device]
  split
  · next first rest => exact (volume ⟨first, rest, rfl⟩).elim
  · rfl

/-- A lookup leaves the node that it makes. -/
theorem resolve_leaves (kernel : KernelHeap heap) :
    Leaves heap (resolve path found heap).2 (Lookup.left ⟨path, found, heap⟩) := by
  have misses (reason : ¬ Lookup.Finds ⟨path, found, heap⟩) :
      Leaves heap heap (Lookup.left ⟨path, found, heap⟩) := by
    rw [Lookup.left_of_not_finds reason]
    exact .refl kernel
  by_cases device : pathString path ∈ ["/dev/null", "/dev/zero", "/dev/kbd", "/dev/vga"]
  · unfold resolve
    rw [if_pos device]
    exact misses fun finds => finds.1 device
  by_cases volume : ∃ first rest, path = 47 :: first :: rest
  · obtain ⟨first, rest, rfl⟩ := volume
    rw [resolve, if_neg device]
    rcases found with - | ⟨size, cluster⟩
    · exact misses fun finds => by cases finds.2.2.1
    · simp only [finddir]
      by_cases null : (kmalloc heap.heap nodeSize).1 = 0
      · rw [Lookup.left_of_not_finds fun finds => finds.2.2.2 null]
        exact .null kernel (by decide) (by decide) null
      · rw [Lookup.left_of_finds ⟨device, ⟨first, rest, rfl⟩, rfl, null⟩]
        exact .block kernel (by decide) (by decide) null
  · rw [resolve_root device volume]
    exact misses fun finds => volume finds.2.1

theorem loadProgram_leaves (program : Program) (kernel : KernelHeap heap) :
    Leaves heap (loadProgram program heap).2 ∅ := by
  rw [loadProgram]
  split
  · exact .refl kernel
  next count _ =>
  have least : 1 ≤ count.val * phdrSize := Nat.mul_pos count.2.1 (by decide)
  have most : count.val * phdrSize ≤ 0x400000 := by
    have := count.2.2
    simp only [phdrSize]
    omega
  by_cases null : (kmalloc heap.heap (count.val * phdrSize)).1 = 0
  · simp only [null, if_true]
    exact .null kernel least most null
  · simp only [null, if_false]
    exact .scope kernel least most null (.refl (kernel.malloc least most))

theorem elfLoad_leaves (program : Program) (kernel : KernelHeap heap) :
    Leaves heap (elfLoad path found program (heap, fds)).2.1
      (Lookup.left ⟨path, found, heap⟩) := by
  have resolved := @resolve_leaves heap path found kernel
  simp only [elfLoad]
  generalize resolve path found heap = result at resolved ⊢
  obtain ⟨node, heap'⟩ := result
  cases node with
  | none => exact resolved
  | some node =>
  dsimp only
  split
  · exact resolved
  · cases fdAlloc fds node 0 with
    | none => exact resolved
    | some opened =>
        dsimp only
        rw [fdClose_heap]
        exact resolved.trans_nothing (loadProgram_leaves program resolved.kernel)

theorem syscallOpen_leaves (call : OpenCall) (t : TaskId) (nodes : Nodes)
    (kernel : KernelHeap nodes.heap) :
    Leaves nodes.heap (syscallOpen call (nodes.view t)).2.1
      (leftBy nodes (.openFile t call)) := by
  simp only [syscallOpen, leftBy, lookedUp, Nodes.view]
  cases capable : call.capable with
  | false => exact .refl kernel
  | true =>
  cases copied : call.path with
  | none => exact .refl kernel
  | some path =>
  have resolved := @resolve_leaves nodes.heap path call.found kernel
  simp only [Bool.not_true, Bool.false_eq_true, if_false, if_true, Option.map_some,
    Option.elim_some]
  generalize resolve path call.found nodes.heap = result at resolved ⊢
  obtain ⟨node, heap'⟩ := result
  cases node with
  | none => exact resolved
  | some node =>
  dsimp only
  split
  · exact resolved
  · cases fdAlloc (nodes.fds t) node 0 with
    | none => exact resolved
    | some opened => exact resolved

/-- The two blocks of `syscall_exec_from_frame` are freed on every path. -/
theorem execFile_leaves (call : ExecCall) (kernel : KernelHeap heap) :
    Leaves heap (execFile call path (heap, fds)).2.1
      (if call.vectorsValid ∧ (kmalloc heap.heap 4096).1 ≠ 0 ∧
          (kmalloc (heap.malloc 4096).heap 4096).1 ≠ 0 then
        Lookup.left ⟨path, call.found, (heap.malloc 4096).malloc 4096⟩
      else ∅) := by
  have least : 1 ≤ 4096 := by decide
  have most : 4096 ≤ 0x400000 := by decide
  have kernel₁ := kernel.malloc least most
  have kernel₂ := kernel₁.malloc least most
  simp only [execFile]
  by_cases strings : (kmalloc heap.heap 4096).1 = 0
  · rw [if_pos (.inl strings), if_neg fun all => all.2.1 strings, strings]
    simp only [freeUnlessNull, if_true]
    have first := Leaves.null kernel least most strings
    by_cases storage : (kmalloc (heap.malloc 4096).heap 4096).1 = 0
    · rw [if_pos storage]
      exact first.trans_nothing (.null kernel₁ least most storage)
    · rw [if_neg storage]
      exact first.trans_nothing (.scope kernel₁ least most storage (.refl kernel₂))
  by_cases storage : (kmalloc (heap.malloc 4096).heap 4096).1 = 0
  · rw [if_pos (.inr storage), if_neg fun all => all.2.2 storage, storage]
    simp only [freeUnlessNull, if_neg strings, if_true]
    exact .scope kernel least most strings (.null kernel₁ least most storage)
  rw [if_neg (not_or.mpr ⟨strings, storage⟩)]
  cases vectors : call.vectorsValid with
  | false =>
      simp only [Bool.not_false, if_true, Bool.false_eq_true, false_and, if_false]
      exact .scope kernel least most strings
        (.scope kernel₁ least most storage (.refl kernel₂))
  | true =>
      simp only [Bool.not_true, Bool.false_eq_true, if_false, true_and, ne_eq, strings, storage,
        not_false_eq_true, if_true]
      exact .scope kernel least most strings
        (.scope kernel₁ least most storage (elfLoad_leaves call.program kernel₂))

theorem execFromFrame_leaves (call : ExecCall) (t : TaskId) (nodes : Nodes)
    (kernel : KernelHeap nodes.heap) :
    Leaves nodes.heap (execFromFrame call (nodes.view t)).2.1 (leftBy nodes (.exec t call)) := by
  simp only [execFromFrame, leftBy, lookedUp, Nodes.view]
  cases call.allowed with
  | false =>
      simp only [Bool.not_false, if_true, Bool.false_eq_true, false_and, if_false,
        Option.elim_none]
      exact .refl kernel
  | true =>
  cases call.path with
  | none =>
      simp only [Option.filter_none, Option.map_none, ite_self, Option.elim_none]
      exact .refl kernel
  | some path =>
  cases verified : verifyPath path with
  | false =>
      simp only [Option.filter_some, verified, Bool.false_eq_true, if_false,
        Option.map_none, ite_self, Option.elim_none, Bool.not_true, Bool.not_false,
        if_true]
      exact .refl kernel
  | true =>
  have left := @execFile_leaves nodes.heap (nodes.fds t) path call kernel
  simp only [Option.filter_some, verified, if_true, Option.map_some, Bool.not_true,
    Bool.false_eq_true, if_false, true_and]
  split at left
  · next all =>
      rw [if_pos all]
      exact left
  · next some =>
      rw [if_neg some]
      exact left

end Calls

/-! ## The calls of the system -/

section Refinement

variable {heap : HeapState} {os : Os} {t : TaskId} {choice : Choice} {a1 : Nat}

/-- What `syscall_open_handler` finds out in a state of the system. -/
def openCall (os : Os) (t : TaskId) (a1 : Nat) : OpenCall where
  capable := checkCapability (os.processes t) capFsRead
  path := if a1 = 0 then none else copyInString os t a1 256
  found := (if a1 = 0 then none else copyInString os t a1 256).bind fun path =>
    (Fs.fsOpen os.volume path.tail os.drive).1.map fun file => (file.size, file.cluster)

theorem resolve_eq {volume : Fs.Volume} {drive : Fs.Drive} {path : List UInt8} {block : Bool}
    (blocks : block = decide ((kmalloc heap.heap nodeSize).1 ≠ 0)) :
    (Syscall.resolve volume block path drive).1 =
      (resolve path ((Fs.fsOpen volume path.tail drive).1.map fun file =>
        (file.size, file.cluster)) heap).1 := by
  by_cases device : pathString path ∈ ["/dev/null", "/dev/zero", "/dev/kbd", "/dev/vga"]
  · unfold Syscall.resolve resolve
    rw [if_pos device, if_pos device]
  by_cases file : ∃ first rest, path = 47 :: first :: rest
  · obtain ⟨first, rest, rfl⟩ := file
    rw [Syscall.resolve, resolve, if_neg device, if_neg device]
    simp only [fat32VfsFinddir, finddir, List.tail_cons, blocks]
    generalize Fs.fsOpen volume (first :: rest) drive = opened
    obtain ⟨file, drive'⟩ := opened
    cases file with
    | none => rfl
    | some file => by_cases null : (kmalloc heap.heap nodeSize).1 = 0 <;> simp [null]
  · rw [resolve_root device file]
    unfold Syscall.resolve
    rw [if_neg device]
    split
    · next first rest => exact (file ⟨first, rest, rfl⟩).elim
    · rfl

theorem fdAlloc_eq (os : Os) (t : TaskId) (node : Node) :
    (Syscall.fdAlloc os t node 0).1 =
        ((fdAlloc (os.processes t).fds node 0).map fun opened => (opened.1 : Int)).getD (-1) ∧
      ((Syscall.fdAlloc os t node 0).2.processes t).fds =
        ((fdAlloc (os.processes t).fds node 0).map Prod.snd).getD (os.processes t).fds := by
  unfold Syscall.fdAlloc fdAlloc
  split
  · next full => simp [full]
  · next fd found =>
      simp only [found, Option.map_some, Option.getD_some, true_and]
      simp only [Os.updateFd, Os.updateProcess, Function.update_self]

/-- With the blocks that the heap has, the call of the system opens the same descriptor. -/
theorem syscallOpen_refines
    (blocks : choice.kmalloc nodeSize = decide ((kmalloc heap.heap nodeSize).1 ≠ 0)) :
    (Syscall.syscallOpen choice t a1 os).1 =
        (syscallOpen (openCall os t a1) (heap, (os.processes t).fds)).1 ∧
      ((Syscall.syscallOpen choice t a1 os).2.processes t).fds =
        (syscallOpen (openCall os t a1) (heap, (os.processes t).fds)).2.2 := by
  simp only [Syscall.syscallOpen, syscallOpen, openCall]
  by_cases null : a1 = 0
  · simp only [null, if_true]
    split <;> exact ⟨rfl, rfl⟩
  rw [if_neg null]
  simp only [if_neg null]
  split
  · exact ⟨rfl, rfl⟩
  rcases copyInString os t a1 256 with - | path
  · exact ⟨rfl, rfl⟩
  have resolved := @resolve_eq heap os.volume os.drive path _ blocks
  simp only [Option.bind_some]
  generalize Syscall.resolve os.volume (choice.kmalloc nodeSize) path os.drive = concrete
    at resolved ⊢
  generalize resolve path ((Fs.fsOpen os.volume path.tail os.drive).1.map fun file =>
    (file.size, file.cluster)) heap = result at resolved ⊢
  obtain ⟨node, drive⟩ := concrete
  obtain ⟨node', heap'⟩ := result
  cases resolved
  cases node with
  | none => exact ⟨rfl, rfl⟩
  | some node =>
  dsimp only
  split
  · exact ⟨rfl, rfl⟩
  · have alloc := fdAlloc_eq { os with drive } t node
    cases opened : fdAlloc (os.processes t).fds node 0 with
    | none =>
        rw [opened] at alloc
        exact alloc
    | some result =>
        rw [opened] at alloc
        exact alloc

end Refinement

section Runs

variable {start nodes nodes' : Nodes} {event : NodeEvent} {events : List NodeEvent}

theorem NodeStep.leaves (step : NodeStep nodes event nodes') (kernel : KernelHeap nodes.heap) :
    Leaves nodes.heap nodes'.heap (leftBy nodes event) := by
  cases step with
  | openFile t call => exact syscallOpen_leaves call t nodes kernel
  | close t fd =>
      have same : (nodes.leave t (fdClose (nodes.view t) fd)).heap = nodes.heap :=
        fdClose_heap _ _
      rw [same]
      exact .refl kernel
  | exec t call => exact execFromFrame_leaves call t nodes kernel
  | exit t =>
      have same : (nodes.leave t (fdTableCloseAll (nodes.view t))).heap = nodes.heap :=
        fdTableCloseAll_heap _
      rw [same]
      exact .refl kernel
  | store contents member outside =>
      obtain ⟨memory, reachable⟩ := kernel
      exact ⟨⟨memory, reachable.store contents member outside⟩, (Set.union_empty _).symm,
        fun _ member => member.elim⟩

/-- Blocks that were in use stay in use; and when no others are, no call has made a node. -/
theorem run_grows (kernel : KernelHeap start.heap) (run : Run NodeStep start events nodes) :
    KernelHeap nodes.heap ∧ inUse start.heap ⊆ inUse nodes.heap ∧
      (inUse nodes.heap = inUse start.heap →
        Run (Restrict NodeStep fun nodes event => ¬ MakesNode nodes event) start events nodes) := by
  induction run with
  | start => exact ⟨kernel, subset_rfl, fun _ => .start⟩
  | @next events middle finish event run step ih =>
  obtain ⟨kernel', grows, without⟩ := ih
  have left := step.leaves kernel'
  have kept : inUse middle.heap ⊆ inUse finish.heap := by
    rw [left.inUse]
    exact Set.subset_union_left
  refine ⟨left.kernel, grows.trans kept, fun equal => ?_⟩
  have same : inUse middle.heap = inUse start.heap :=
    Set.Subset.antisymm (kept.trans equal.subset) grows
  refine (without same).next ⟨fun makes => ?_, step⟩
  obtain ⟨block, member⟩ := leftBy_of_makesNode makes
  have later : block ∈ inUse finish.heap := by
    rw [left.inUse]
    exact .inr member
  rw [equal, ← same] at later
  exact left.fresh block member block later rfl

theorem run_without_nodes (kernel : KernelHeap start.heap)
    (run : Run (Restrict NodeStep fun nodes event => ¬ MakesNode nodes event) start events nodes) :
    KernelHeap nodes.heap ∧ inUse nodes.heap = inUse start.heap := by
  induction run with
  | start => exact ⟨kernel, rfl⟩
  | next run step ih =>
      have left := step.2.leaves ih.1
      refine ⟨left.kernel, ?_⟩
      rw [left.inUse, leftBy_of_not_makesNode step.1, Set.union_empty, ih.2]

/-- After any calls of any tasks, whether the descriptors are closed or not, the blocks in use
are those from before if and only if no call has looked up a file that exists while the heap had
a block for its node. -/
theorem inUse_restored_iff (kernel : KernelHeap start.heap)
    (run : Run NodeStep start events nodes) :
    inUse nodes.heap = inUse start.heap ↔
      Run (Restrict NodeStep fun nodes event => ¬ MakesNode nodes event) start events nodes :=
  ⟨(run_grows kernel run).2.2, fun without => (run_without_nodes kernel without).2⟩

end Runs

/-- The kernel after its boot. -/
def bootNodes : Nodes where
  heap := ⟨heapInit (fun _ => 0) 0xFFFF900000000000 0x400000, []⟩
  fds := fun _ fd => if fd < 3 then { node := some .device } else {}

theorem kernelHeap_boot : KernelHeap bootNodes.heap := ⟨_, .init⟩

/-- All descriptors but the standard streams are closed. -/
def AllClosed (nodes : Nodes) : Prop := ∀ t fd, 3 ≤ fd → (nodes.fds t fd).node = none

section OpenAndClose

variable (path : List UInt8) (found : Option (Nat × Nat))

/-- The kernel with the path opened. -/
def opened : Nodes :=
  bootNodes.leave 1 (syscallOpen ⟨true, some path, found⟩ (bootNodes.view 1)).2

/-- The kernel with the path opened and closed. -/
def closed : Nodes :=
  (opened path found).leave 1 (fdClose ((opened path found).view 1) 3)

theorem openStep :
    NodeStep bootNodes (.openFile 1 ⟨true, some path, found⟩) (opened path found) :=
  .openFile _ _ _

theorem closeStep : NodeStep (opened path found) (.close 1 3) (closed path found) :=
  .close _ _ _

theorem allClosed_closed : AllClosed (closed path found) := by
  have others : ∀ fd, 3 < fd → ((opened path found).fds 1 fd).node = none := by
    intro fd above
    have boot : (bootNodes.fds 1 fd).node = none := by
      simp only [bootNodes]
      rw [if_neg (by omega)]
    simp only [opened, Nodes.leave, Function.update_self, syscallOpen, Nodes.view, Bool.not_true,
      Bool.false_eq_true, if_false]
    generalize resolve path found bootNodes.heap = result
    obtain ⟨node, heap⟩ := result
    cases node with
    | none => exact boot
    | some node =>
    have alloc : fdAlloc (bootNodes.fds 1) node 0 = some (3,
        Function.update (bootNodes.fds 1) 3 { node := some node, offset := 0, flags := 0 }) :=
      rfl
    dsimp only
    split
    · exact boot
    · rw [alloc]
      dsimp only
      rw [Function.update_of_ne (by omega)]
      exact boot
  intro t fd above
  by_cases task : t = 1
  · subst task
    have cleared : (closed path found).fds 1 =
        Function.update ((opened path found).fds 1) 3 {} := by
      simp only [closed, Nodes.leave, Function.update_self]
      rfl
    rw [cleared]
    by_cases first : fd = 3
    · rw [first, Function.update_self]
    · rw [Function.update_of_ne first]
      exact others fd (by omega)
  · have untouched : (closed path found).fds t = bootNodes.fds t := by
      simp only [closed, opened, Nodes.leave, Function.update_of_ne task]
    rw [untouched]
    simp only [bootNodes]
    rw [if_neg (by omega)]

end OpenAndClose

/-- A device is opened and closed. -/
theorem inUse_restored_device :
    ∃ events finish, Run NodeStep bootNodes events finish ∧ events.length = 2 ∧
      AllClosed finish ∧ inUse finish.heap = inUse bootNodes.heap := by
  let path : List UInt8 := [47, 100, 101, 118, 47, 110, 117, 108, 108]
  have device : ¬ MakesNode bootNodes (.openFile 1 ⟨true, some path, none⟩) := by
    rintro ⟨lookup, looked, finds⟩
    cases looked
    exact finds.1 (by decide)
  have close : ¬ MakesNode (opened path none) (.close 1 3) := by
    rintro ⟨lookup, looked, finds⟩
    cases looked
  have run := (Run.start.next (openStep path none)).next (closeStep path none)
  exact ⟨_, _, run, rfl, allClosed_closed path none,
    (inUse_restored_iff kernelHeap_boot run).mpr
      ((Run.start.next ⟨device, openStep path none⟩).next ⟨close, closeStep path none⟩)⟩

/-- A file is opened and closed, and the block of its node stays in use. -/
theorem opened_file_leaves_block :
    ∃ events finish, Run NodeStep bootNodes events finish ∧ AllClosed finish ∧
      inUse finish.heap ≠ inUse bootNodes.heap := by
  let path : List UInt8 := [47, 97]
  let found : Option (Nat × Nat) := some (10, 3)
  have block : (kmalloc bootNodes.heap.heap nodeSize).1 ≠ 0 := by decide +kernel
  have makes : MakesNode bootNodes (.openFile 1 ⟨true, some path, found⟩) :=
    ⟨⟨path, found, bootNodes.heap⟩, rfl, by decide, ⟨97, [], rfl⟩, rfl, block⟩
  have left := (openStep path found).leaves kernelHeap_boot
  have heap : (closed path found).heap = (opened path found).heap := fdClose_heap _ _
  refine ⟨_, _, (Run.start.next (openStep path found)).next (closeStep path found),
    allClosed_closed path found, fun same => ?_⟩
  obtain ⟨node, member⟩ := leftBy_of_makesNode makes
  have still : node ∈ inUse (closed path found).heap := by
    rw [heap, left.inUse]
    exact .inr member
  rw [same] at still
  cases still

end Charis.Syscall.NodeBlocks
