import Charis.Exec.Elf

/-!
# Replacing the program of a task

`syscall_exec_from_frame` copies a path and two vectors of strings out of the task, loads
the executable into the address space that the task runs in, sets up a stack for it and
only then changes the registers of the caller.  The stack, too, is written at physical
addresses.

Blocks of the kernel heap are given back on every path and only matter by whether there
are any.
-/

namespace Charis.Exec

open Charis.Lib
open Charis.Memory
open Charis.Memory.Entry
open Charis.Fs

/-- `ELF_MAX_VECTOR_ENTRIES`. -/
abbrev maxVectorEntries : Nat := 16

/-- `VMM_FLAG_PRESENT | VMM_FLAG_WRITABLE | VMM_FLAG_USER`. -/
abbrev stackFlags : Entry := 7#64

/-- Whether `vmm_walk` finds a page at an address. -/
def occupied (machine : Machine) (pml4 addr : Nat) : Bool :=
  match userEntry machine pml4 addr with
  | none => false
  | some pte => present pte

/-- The search for two pages below a stack top at which nothing is mapped. -/
def findStack (machine : Machine) (pml4 : Nat) : (attempts stackTop : Nat) → Option Nat
  | 0, _ => none
  | attempts + 1, stackTop =>
      if stackTop < 2 * pageSize then none
      else if occupied machine pml4 (stackTop - 2 * pageSize) ||
          occupied machine pml4 (stackTop - pageSize) then
        findStack machine pml4 attempts (stackTop - pageSize)
      else some stackTop

/-- A zeroed page is mapped, or given back when it cannot be. -/
def mapFreshPage (machine : Machine) (pml4 addr : Nat) (flags : Entry) : Bool × Machine :=
  let (phys, pmm) := machine.pmm.allocPage
  if phys = 0 then (false, { machine with pmm })
  else
    match mapPagePml4 { machine with memory := machine.memory.fill phys pageSize 0, pmm }
        pml4 addr phys flags with
    | (false, machine) => (false, { machine with pmm := machine.pmm.freePage phys })
    | (true, machine) => (true, machine)

/-- The page loop of `elf_setup_stack`; it also counts the pages that have been mapped. -/
def mapStackPages (pml4 : Nat) : (count addr mapped : Nat) → Machine → Bool × Nat × Machine
  | 0, _, mapped, machine => (true, mapped, machine)
  | count + 1, addr, mapped, machine =>
      match mapFreshPage machine pml4 addr stackFlags with
      | (false, machine) => (false, mapped, machine)
      | (true, machine) => mapStackPages pml4 count (addr + pageSize) (mapped + 1) machine

/-- One of the two loops of `elf_setup_stack` over strings, from the last one on: the
cursor below them and their addresses.  A pointer among them may be null. -/
def pushStrings (pml4 stackBase : Nat) : List (Option (List UInt8)) → (cursor : Nat) →
    List Nat → Machine → Option (Nat × List Nat) × Machine
  | [], cursor, addresses, machine => (some (cursor, addresses), machine)
  | none :: _, _, _, machine => (none, machine)
  | some string :: strings, cursor, addresses, machine =>
      let length := string.length + 1
      if length > cursor - stackBase then (none, machine)
      else
        match elfWriteUser machine pml4 (cursor - length) (string ++ [0]) with
        | (false, machine) => (none, machine)
        | (true, machine) =>
            pushStrings pml4 stackBase strings (cursor - length)
              ((cursor - length) :: addresses) machine

/-- A 64-bit word in memory. -/
def wordBytes (word : Nat) : List UInt8 :=
  (List.range 8).map fun index => UInt8.ofNat (word / 256 ^ index)

/-- The words that a program finds above its stack pointer. -/
def vectorWords (argv envp : List Nat) : List Nat :=
  argv.length :: argv ++ [0] ++ envp ++ [0] ++ [0, 0]

/-- The strings and the words are put on the stack; the stack pointer is returned. -/
def fillStack (machine : Machine) (pml4 stackBase stackTop : Nat)
    (argv envp : List (Option (List UInt8))) : Option Nat × Machine :=
  match pushStrings pml4 stackBase envp.reverse stackTop [] machine with
  | (none, machine) => (none, machine)
  | (some (cursor, envpUser), machine) =>
      match pushStrings pml4 stackBase argv.reverse cursor [] machine with
      | (none, machine) => (none, machine)
      | (some (cursor, argvUser), machine) =>
          let bytes := (vectorWords argvUser envpUser).flatMap wordBytes
          if bytes.length > cursor - stackBase then (none, machine)
          else
            let address := (cursor - bytes.length) / 16 * 16
            if address < stackBase then (none, machine)
            else
              match elfWriteUser machine pml4 address bytes with
              | (false, machine) => (none, machine)
              | (true, machine) => (some address, machine)

/-- `elf_rollback_stack`, with the pages that are left. -/
def rollbackStack (pml4 : Nat) : (count addr : Nat) → Machine → Machine
  | 0, _, machine => machine
  | count + 1, addr, machine =>
      let (phys, machine) := unmapPagePml4 machine pml4 addr
      rollbackStack pml4 count (addr + pageSize)
        (if phys = 0 then machine else { machine with pmm := machine.pmm.freePage phys })

/-- The body of `elf_setup_stack`, once its arguments have been checked: the stack pointer of
the program, or nothing. -/
def buildStack (machine : Machine) (pml4 : Nat) (argv envp : List (Option (List UInt8))) :
    Option Nat × Machine :=
  match findStack machine pml4 4096 0x00007FFFFFFFE000 with
  | none => (none, machine)
  | some stackTop =>
      let stackBase := stackTop - 2 * pageSize
      match mapStackPages pml4 2 stackBase 0 machine with
      | (false, mapped, machine) => (none, rollbackStack pml4 mapped stackBase machine)
      | (true, mapped, machine) =>
          match fillStack machine pml4 stackBase stackTop argv envp with
          | (none, machine) => (none, rollbackStack pml4 mapped stackBase machine)
          | (some address, machine) => (some address, machine)

/-- A vector of strings as a caller passes it: a pointer, which may be null, to pointers that
may be null as well, and how many of them there are. -/
structure StringVector where
  pointers : Option (Nat → Option (List UInt8))
  count : Int

namespace StringVector

/-- The vector is turned away. -/
def refused (vector : StringVector) : Bool :=
  vector.count < 0 || vector.count > maxVectorEntries ||
    (vector.count ≠ 0 && vector.pointers.isNone)

/-- The pointers of a vector. -/
def strings (vector : StringVector) : List (Option (List UInt8)) :=
  (List.range vector.count.toNat).map fun index => vector.pointers.bind fun pointer => pointer index

/-- The vector that the kernel has made of strings. -/
def ofStrings (strings : List (List UInt8)) : StringVector where
  pointers := some fun index => strings[index]?
  count := strings.length

end StringVector

/-- `process_mm_t`, without its list of regions, which nothing fills. -/
structure ProcessMm where
  pml4 : Nat
  heapStart : Nat
  heapEnd : Nat
  stackTop : Nat
  deriving DecidableEq

/-- What `elf_setup_stack` works on: the machine, the record of the address space and the
variable for the stack pointer, whose addresses may be null. -/
structure StackTarget where
  machine : Machine
  mm : Option ProcessMm
  userRsp : Option Nat

/-- `elf_setup_stack`. -/
def elfSetupStack (target : StackTarget) (argv envp : StringVector) : Int × StackTarget :=
  match target.mm, target.userRsp with
  | some mm, some _ =>
      if mm.pml4 = 0 || argv.refused || envp.refused then (-1, target)
      else
        match buildStack target.machine mm.pml4 argv.strings envp.strings with
        | (none, machine) => (-1, { target with machine })
        | (some address, machine) =>
            (0,
              { machine
                mm := some { mm with stackTop := address }
                userRsp := some address })
  | _, _ => (-1, target)

/-- The registers that the call reads or writes. -/
structure RegFrame where
  rdi : Nat
  rsi : Nat
  rdx : Nat
  rax : Nat
  rip : Nat
  cs : Nat
  rflags : Nat
  rsp : Nat
  ss : Nat
  deriving DecidableEq

/-- The fields of a task that the call reads or writes; its descriptors are those of the
system. -/
structure ExecTask where
  isUser : Bool
  addressSpace : Nat
  capabilities : Nat
  mm : ProcessMm
  userRsp : Nat
  deriving DecidableEq

/-- The state in which the call is made. -/
structure ExecState where
  system : System
  task : ExecTask
  frame : RegFrame

/-- `CAP_SPAWN`. -/
def capSpawn : Nat := 16

/-- `security_verify_path`: no component of the path is `..`, or ends in it. -/
def verifyPath : List UInt8 → Bool
  | [] => true
  | byte :: rest =>
      !(byte = 46 && rest.head? = some 46 &&
        (rest.tail.head? = none || rest.tail.head? = some 47)) && verifyPath rest

/-- A path that the kernel has read, without the zero at its end. -/
def pathString (bytes : List UInt8) : String :=
  String.ofList (bytes.map fun byte => Char.ofNat byte.toNat)

/-- Room for all strings of both vectors. -/
abbrev storageSize : Nat := 4096

/-- The loop of `syscall_copy_user_vector`: the strings without the zeros at their ends, and
the storage used by then. -/
def copyVectorLoop (machine : Machine) (pml4 vector : Nat) :
    (remaining index used : Nat) → Option (List (List UInt8) × Nat)
  | 0, _, _ => none
  | remaining + 1, index, used =>
      let pointer := (vector + index * 8) % 2 ^ 64
      if pointer < vector then none
      else
        match copyUserData machine pml4 pointer true 8 with
        | (false, _) => none
        | (true, bytes) =>
            let string := ByteMemory.readLE (fun index => bytes.getD index 0) 0 8
            if string = 0 then some ([], used)
            else if used ≥ storageSize then none
            else
              match copyUserString machine pml4 string true (storageSize - used) with
              | (false, _) => none
              | (true, bytes) =>
                  (copyVectorLoop machine pml4 vector remaining (index + 1)
                    (used + bytes.length)).map fun (strings, used) =>
                    (bytes.dropLast :: strings, used)

/-- `syscall_copy_user_vector`. -/
def copyUserVector (machine : Machine) (pml4 vector used : Nat) :
    Option (List (List UInt8) × Nat) :=
  if vector = 0 then some ([], used)
  else copyVectorLoop machine pml4 vector maxVectorEntries 0 used

/-- What the kernel heap has for a call: a block for the pointers and one for the
strings. -/
structure ExecBlocks where
  strings : Bool
  storage : Bool

/-- The part of `syscall_exec_from_frame` before `elf_load`: the path, the arguments and the
environment, when the call is not turned away. -/
def execArguments (blocks : ExecBlocks) (state : ExecState) :
    Option (String × List (List UInt8) × List (List UInt8)) :=
  let task := state.task
  let machine := state.system.machine
  if state.frame.cs % 4 ≠ 3 then none
  else if !task.isUser ∨ task.mm.pml4 = 0 ∨ task.addressSpace ≠ task.mm.pml4 ∨
      task.capabilities &&& capSpawn = 0 then none
  else
    match copyUserString machine task.mm.pml4 state.frame.rdi true 256 with
    | (false, _) => none
    | (true, path) =>
        if !verifyPath path.dropLast then none
        else if !blocks.strings || !blocks.storage then none
        else
          match copyUserVector machine task.mm.pml4 state.frame.rsi 0 with
          | none => none
          | some (argv, used) =>
              match copyUserVector machine task.mm.pml4 state.frame.rdx used with
              | none => none
              | some (envp, _) => some (pathString path.dropLast, argv, envp)

/-- `syscall_exec_from_frame`. -/
def execFromFrame (finddir : String → Option VfsNode) (blocks : ExecBlocks)
    (state : ExecState) : Bool × ExecState :=
  match execArguments blocks state with
  | none => (false, state)
  | some (path, argv, envp) =>
      let pml4 := state.task.mm.pml4
      match elfLoad finddir state.system (some path) pml4 with
      | (none, system) => (false, { state with system })
      | (some entry, system) =>
          -- the variable for the stack pointer is not initialised
          match elfSetupStack ⟨system.machine, some state.task.mm, some 0⟩ (.ofStrings argv)
              (.ofStrings envp) with
          | (0, ⟨machine, some mm, some stackTop⟩) =>
              (true,
                { system := { system with machine }
                  task := { state.task with
                    mm := { mm with stackTop }
                    userRsp := stackTop }
                  frame := { state.frame with
                    rip := entry
                    cs := 0x1B
                    rflags := 0x202
                    rsp := stackTop
                    ss := 0x23
                    rax := 0 } })
          | (_, ⟨machine, mm, _⟩) =>
              (false,
                { state with
                  system := { system with machine }
                  task := { state.task with mm := mm.getD state.task.mm } })

end Charis.Exec
