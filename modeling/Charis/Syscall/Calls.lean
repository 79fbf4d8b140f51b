import Charis.Fs.Fat
import Charis.Exec.ExecCall
import Charis.Sched.Scheduler

/-!
# System calls

Every call that `syscall_init` registers, as it goes for a user task: the branches that
serve kernel tasks with unchecked pointers are left out, and so are the screen, the speaker
and the serial line, which only take output.

The kernel's own data is not part of the memory that the copies to and from user pages work
on.  Whether the kernel heap has a block and what the network card does is up to a choice
that comes with each call.
-/

namespace Charis.Syscall

open Charis.Fs
open Charis.Sched
open Charis.Exec
open Charis.Memory

/-- `vfs_node_t`, by the callbacks that it has: devices and the root directory have none, and
files of the volume can be read and written. -/
inductive Node where
  | device
  | root
  | file (name : List UInt8) (size cluster : Nat)

/-- `sizeof(vfs_node_t)`. -/
abbrev nodeSize : Nat := 336

/-- `fd_entry_t`. -/
structure Descriptor where
  node : Option Node := none
  offset : Nat := 0
  flags : Nat := 0

/-- `fat32_vfs_read`.  The place of the directory entry is not looked at by `fs_read`. -/
def fat32VfsRead (volume : Volume) (size cluster offset count : Nat) (drive : Drive) :
    Option (List UInt8) × Drive :=
  let file : File :=
    { cluster := cluster % 2 ^ 32
      size := size % 2 ^ 32
      pos := offset % 2 ^ 32
      dirCluster := 0
      dirSector := 0
      dirIndex := 0 }
  match fsRead volume file count drive with
  | (bytes, _, drive) => (bytes, drive)

/-- `fat32_vfs_write`: how many bytes were written, and the size that the node has then. -/
def fat32VfsWrite (volume : Volume) (name : List UInt8) (offset : Nat) (bytes : List UInt8)
    (drive : Drive) : Option (Nat × Nat) × Drive :=
  if bytes = [] then (none, drive)
  else
    match fsOpen volume name drive with
    | (none, drive) => (none, drive)
    | (some file, drive) =>
        match fsWrite volume { file with pos := offset % 2 ^ 32 } bytes drive with
        | (none, _, drive) => (none, drive)
        | (some written, file, drive) => (some (written, file.size), drive)

/-- `fat32_vfs_finddir`. -/
def fat32VfsFinddir (volume : Volume) (block : Bool) (name : List UInt8) (drive : Drive) :
    Option Node × Drive :=
  match fsOpen volume name drive with
  | (none, drive) => (none, drive)
  | (some file, drive) => (if block then some (.file name file.size file.cluster) else none, drive)

/-- `vfs_resolve`. -/
def resolve (volume : Volume) (block : Bool) (path : List UInt8) (drive : Drive) :
    Option Node × Drive :=
  if pathString path ∈ ["/dev/null", "/dev/zero", "/dev/kbd", "/dev/vga"] then
    (some .device, drive)
  else
    match path with
    | 47 :: first :: rest => fat32VfsFinddir volume block (first :: rest) drive
    | _ => (some .root, drive)

/-- `socket_t`. -/
structure Socket where
  fd : Int := -1
  type : Int := 0
  ip : Nat := 0
  port : Nat := 0
  connected : Bool := false
  listening : Bool := false

/-- `SOCKET_MAX`. -/
abbrev socketMax : Nat := 16

abbrev Sockets := Fin socketMax → Socket

def socketIndex (sockfd : Int) : Option (Fin socketMax) :=
  if h : 0 ≤ sockfd ∧ sockfd < 16 then
    some ⟨sockfd.toNat, by
      simp only [socketMax]
      omega⟩
  else none

/-- A descriptor of a socket that is in use. -/
def openSocket (sockets : Sockets) (sockfd : Int) : Option (Fin socketMax) :=
  (socketIndex sockfd).filter fun index => (sockets index).fd ≠ -1

/-- `socket_create`. -/
def socketCreate (sockets : Sockets) (domain type : Int) : Int × Sockets :=
  if domain ≠ 2 ∨ type ≠ 1 ∧ type ≠ 2 then (-1, sockets)
  else
    match (List.finRange socketMax).find? fun index => (sockets index).fd = -1 with
    | none => (-1, sockets)
    | some index =>
        (index, Function.update sockets index
          { sockets index with fd := index, type, connected := false, listening := false })

/-- The calls that change a socket in use. -/
def changeSocket (sockets : Sockets) (sockfd : Int) (change : Socket → Socket) :
    Int × Sockets :=
  match openSocket sockets sockfd with
  | none => (-1, sockets)
  | some index => (0, Function.update sockets index (change (sockets index)))

/-- `socket_connect`. -/
def socketConnect (sockets : Sockets) (sockfd : Int) (ip port : Nat) : Int × Sockets :=
  changeSocket sockets sockfd ({ · with ip, port, connected := true })

/-- `socket_bind`. -/
def socketBind (sockets : Sockets) (sockfd : Int) (port : Nat) : Int × Sockets :=
  changeSocket sockets sockfd ({ · with port })

/-- `socket_listen`. -/
def socketListen (sockets : Sockets) (sockfd : Int) : Int × Sockets :=
  changeSocket sockets sockfd ({ · with listening := true })

/-- `socket_accept`. -/
def socketAccept (sockets : Sockets) (sockfd : Int) : Int × Sockets :=
  match openSocket sockets sockfd with
  | none => (-1, sockets)
  | some index =>
      if (sockets index).listening then socketCreate sockets 2 1 else (-1, sockets)

/-- `socket_close`. -/
def socketClose (sockets : Sockets) (sockfd : Int) : Sockets :=
  match socketIndex sockfd with
  | none => sockets
  | some index =>
      Function.update sockets index
        { sockets index with fd := -1, connected := false, listening := false }

/-- The part of a task that the scheduler does not look at. -/
structure Process where
  capabilities : Nat
  addressSpace : Nat
  mm : ProcessMm
  userRsp : Nat
  fds : Nat → Descriptor
  /-- The buffer that is to receive a message, while `ipc_recv` waits for one. -/
  receiving : Option (Nat × Nat)

structure Os where
  kernel : Kernel
  processes : TaskId → Process
  machine : Machine
  volume : Volume
  drive : Drive
  sockets : Sockets
  /-- The keys that have been pressed and not read yet. -/
  keyboard : List UInt8

/-- What is not decided by the kernel during a call: which blocks the heap has, what the
network card returns and what is in the statistics. -/
structure Choice where
  kmalloc : Nat → Bool
  blocks : ExecBlocks
  sent : Int
  received : Int × List UInt8
  statistics : List UInt8
  /-- How many transfers it takes to load an executable. -/
  transfers : Nat

namespace Os

def updateProcess (os : Os) (t : TaskId) (change : Process → Process) : Os :=
  { os with processes := Function.update os.processes t (change (os.processes t)) }

def updateFd (os : Os) (t : TaskId) (fd : Nat) (change : Descriptor → Descriptor) : Os :=
  os.updateProcess t fun process =>
    { process with fds := Function.update process.fds fd (change (process.fds fd)) }

end Os

/-- `CAP_FS_READ`. -/
def capFsRead : Nat := 1

/-- `CAP_FS_WRITE`. -/
def capFsWrite : Nat := 2

/-- `security_check_capability`. -/
def checkCapability (process : Process) (cap : Nat) : Bool :=
  process.capabilities &&& cap ≠ 0

/-- A register as an `int`. -/
def int32 (register : Nat) : Int := (BitVec.ofNat 32 register).toInt

/-- `SYSCALL_IO_MAX`. -/
abbrev syscallIoMax : Nat := 4096

/-- `fd_get`. -/
def fdGet (os : Os) (t : TaskId) (fd : Int) : Option Descriptor :=
  if 0 ≤ fd ∧ fd < 64 then some ((os.processes t).fds fd.toNat) else none

/-- `fd_alloc`. -/
def fdAlloc (os : Os) (t : TaskId) (node : Node) (flags : Nat) : Int × Os :=
  match (List.range' 3 61).find? fun fd => ((os.processes t).fds fd).node.isNone with
  | none => (-1, os)
  | some fd => (fd, os.updateFd t fd fun _ => { node := some node, offset := 0, flags })

/-- `fd_close`; no node has a callback for it. -/
def fdClose (os : Os) (t : TaskId) (fd : Int) : Os :=
  if 0 ≤ fd ∧ fd < 64 then os.updateFd t fd.toNat fun _ => {} else os

/-- `fd_table_close_all`. -/
def fdTableCloseAll (_ : Nat → Descriptor) : Nat → Descriptor :=
  fun fd => if fd < 3 then { node := some .device } else {}

/-- `syscall_copy_to_user_data` for a task. -/
def copyOut (os : Os) (t : TaskId) (address : Nat) (bytes : List UInt8) : Bool × Os :=
  match copyToUserData os.machine (os.processes t).mm.pml4 address (some bytes)
      bytes.length with
  | (ok, machine) => (ok, { os with machine })

/-- `syscall_copy_user_string` for a task, without the zero at the end. -/
def copyInString (os : Os) (t : TaskId) (address capacity : Nat) : Option (List UInt8) :=
  match copyUserString os.machine (os.processes t).mm.pml4 address true capacity with
  | (false, _) => none
  | (true, bytes) => some bytes.dropLast

/-- `syscall_copy_user_data` for a task. -/
def copyIn (os : Os) (t : TaskId) (address size : Nat) (block : Bool) : Option (List UInt8) :=
  match copyUserData os.machine (os.processes t).mm.pml4 address block size with
  | (false, _) => none
  | (true, bytes) => some bytes

/-- The end of `syscall_read_handler`: bytes are copied to the task. -/
def deliver (os : Os) (t : TaskId) (fd : Int) (address : Nat) (bytes : List UInt8) :
    Int × Os :=
  if bytes = [] then (0, os)
  else
    match copyOut os t address bytes with
    | (false, os) => (-1, os)
    | (true, os) =>
        (bytes.length,
          if fd = 0 then os
          else os.updateFd t fd.toNat fun f =>
            { f with offset := (f.offset + bytes.length) % 2 ^ 64 })

/-- `syscall_read_handler`. -/
def syscallRead (choice : Choice) (t : TaskId) (a1 a2 a3 : Nat) (os : Os) : Int × Os :=
  match fdGet os t (int32 a1) with
  | none | some ⟨none, _, _⟩ => (-1, os)
  | some ⟨some node, offset, _⟩ =>
      if syscallIoMax < a3 then (-1, os)
      else if a3 = 0 then (0, os)
      else if !choice.kmalloc a3 then (-1, os)
      else if int32 a1 = 0 then
        deliver { os with keyboard := os.keyboard.tail } t (int32 a1) a2 (os.keyboard.take 1)
      else
        match node with
        | .device | .root => (-1, os)
        | .file _ size cluster =>
            match fat32VfsRead os.volume size cluster offset a3 os.drive with
            | (none, drive) => (-1, { os with drive })
            | (some bytes, drive) =>
                if a3 < bytes.length then (-1, { os with drive })
                else deliver { os with drive } t (int32 a1) a2 bytes

/-- `syscall_write_handler`. -/
def syscallWrite (choice : Choice) (t : TaskId) (a1 a2 a3 : Nat) (os : Os) : Int × Os :=
  match fdGet os t (int32 a1) with
  | none | some ⟨none, _, _⟩ => (-1, os)
  | some ⟨some node, offset, _⟩ =>
      if syscallIoMax < a3 then (-1, os)
      else if a3 = 0 then (0, os)
      else if !choice.kmalloc a3 then (-1, os)
      else
        match copyIn os t a2 a3 true with
        | none => (-1, os)
        | some bytes =>
            if int32 a1 = 1 ∨ int32 a1 = 2 then (a3, os)
            else
              match node with
              | .device | .root => (-1, os)
              | .file name _ cluster =>
                  if !checkCapability (os.processes t) capFsWrite then (-1, os)
                  else
                    match fat32VfsWrite os.volume name offset bytes os.drive with
                    | (none, drive) => (-1, { os with drive })
                    | (some (written, size), drive) =>
                        let os := { os with drive }.updateFd t (int32 a1).toNat fun f =>
                          { f with node := some (.file name size cluster) }
                        if a3 < written then (-1, os)
                        else
                          (written, os.updateFd t (int32 a1).toNat fun f =>
                            { f with offset := (f.offset + written) % 2 ^ 64 })

/-- `syscall_open_handler`. -/
def syscallOpen (choice : Choice) (t : TaskId) (a1 : Nat) (os : Os) : Int × Os :=
  if a1 = 0 then (-1, os)
  else if !checkCapability (os.processes t) capFsRead then (-1, os)
  else
    match copyInString os t a1 256 with
    | none => (-1, os)
    | some path =>
        match resolve os.volume (choice.kmalloc nodeSize) path os.drive with
        | (none, drive) => (-1, { os with drive })
        | (some node, drive) =>
            if !verifyPath path then (-1, { os with drive })
            else fdAlloc { os with drive } t node 0

/-! ## Tasks and channels -/

/-- The value that a channel call has left for the caller. -/
def replied (os : Os) : Int × Os := (os.kernel.reply.value, os)

/-- The end of `syscall_ipc_recv_handler`, when `ipc_recv` has returned. -/
def finishRecv (t : TaskId) (a2 a3 : Nat) (os : Os) : Int × Os :=
  let result := min os.kernel.reply.value a3
  if result ≤ 0 then (result, os)
  else
    match copyOut os t a2 (os.kernel.reply.data.take result.toNat) with
    | (false, os) => (-1, os)
    | (true, os) => (result, os)

/-- `ipc_recv` returns to the task that called it, or another task runs. -/
def afterRecv (t : TaskId) (a2 a3 : Nat) (os : Os) : Option Int × Os :=
  if os.kernel.current = some t then
    match finishRecv t a2 a3 (os.updateProcess t ({ · with receiving := none })) with
    | (result, os) => (some result, os)
  else (none, os.updateProcess t ({ · with receiving := some (a2, a3) }))

/-- `syscall_ipc_recv_handler`. -/
def syscallIpcRecv (choice : Choice) (t : TaskId) (a1 a2 a3 : Nat) (os : Os) :
    Option Int × Os :=
  if syscallIoMax < a3 then (some (-1), os)
  else if !choice.kmalloc a3 ∧ a3 ≠ 0 then (some (-1), os)
  else
    afterRecv t a2 a3
      { os with kernel := ipcRecv os.kernel (int32 a1) (choice.kmalloc a3) a3 }

/-- `syscall_ipc_send_handler`. -/
def syscallIpcSend (choice : Choice) (t : TaskId) (a1 a2 a3 : Nat) (os : Os) : Int × Os :=
  if syscallIoMax < a3 then (-1, os)
  else if !choice.kmalloc a3 ∧ a3 ≠ 0 then (-1, os)
  else
    match copyIn os t a2 a3 (choice.kmalloc a3) with
    | none => (-1, os)
    | some bytes =>
        replied { os with
          kernel := ipcSend os.kernel (int32 a1) (if choice.kmalloc a3 then some bytes else none) }

/-- `syscall_ipc_create_handler`. -/
def syscallIpcCreate (t : TaskId) (a1 : Nat) (os : Os) : Int × Os :=
  if a1 = 0 then (-1, os)
  else
    match copyInString os t a1 32 with
    | none => (-1, os)
    | some _ => replied { os with kernel := ipcCreate os.kernel }

/-- `syscall_exit_handler`. -/
def syscallExit (t : TaskId) (a1 : Nat) (os : Os) : Os :=
  let os := os.updateProcess t fun process =>
    { process with fds := fdTableCloseAll process.fds }
  { os with kernel := taskExitWithStatus os.kernel (a1 % 2 ^ 32) }

/-- `syscall_send_handler`. -/
def syscallSend (choice : Choice) (t : TaskId) (a1 a2 a3 : Nat) (os : Os) : Int × Os :=
  if syscallIoMax < a3 then (-1, os)
  else if !choice.kmalloc a3 ∧ a3 ≠ 0 then (-1, os)
  else
    match copyIn os t a2 a3 (choice.kmalloc a3) with
    | none => (-1, os)
    | some _ =>
        match openSocket os.sockets (int32 a1) with
        | none => (-1, os)
        | some index => (if (os.sockets index).connected then choice.sent else -1, os)

/-- `syscall_recv_handler`. -/
def syscallRecv (choice : Choice) (t : TaskId) (a1 a2 a3 : Nat) (os : Os) : Int × Os :=
  if syscallIoMax < a3 then (-1, os)
  else if !choice.kmalloc a3 ∧ a3 ≠ 0 then (-1, os)
  else
    match openSocket os.sockets (int32 a1) with
    | none => (-1, os)
    | some _ =>
        let result := min choice.received.1 a3
        if result ≤ 0 then (result, os)
        else
          match copyOut os t a2 (choice.received.2.take result.toNat) with
          | (false, os) => (-1, os)
          | (true, os) => (result, os)

/-- A call on the sockets. -/
def onSockets (os : Os) (call : Sockets → Int × Sockets) : Int × Os :=
  match call os.sockets with
  | (result, sockets) => (result, { os with sockets })

/-- `syscall_diag_stats_handler`. -/
def syscallDiagStats (choice : Choice) (t : TaskId) (a1 : Nat) (os : Os) : Int × Os :=
  if a1 = 0 then (-1, os)
  else
    match copyOut os t a1 choice.statistics with
    | (false, os) => (-1, os)
    | (true, os) => (0, os)

/-- A call that returns. -/
def returns (result : Int × Os) : Option Int × Os := (some result.1, result.2)

/-- `syscall_dispatch`, by the numbers under which `syscall_init` registers the handlers.
None of them looks at the last three arguments.  There is no result after an exit and while
`ipc_recv` waits. -/
def syscallDispatch (choice : Choice) (t : TaskId) (num a1 a2 a3 : Nat) (os : Os) :
    Option Int × Os :=
  match num with
  | 0 => returns (syscallRead choice t a1 a2 a3 os)
  | 1 => returns (syscallWrite choice t a1 a2 a3 os)
  | 2 => returns (syscallOpen choice t a1 os)
  | 3 => returns (0, fdClose os t (int32 a1))
  -- `SYS_GETPID`
  | 39 => returns ((os.kernel.tasks t).pid, os)
  -- `SYS_FORK` and `SYS_EXEC`, which need the registers of the task
  | 57 | 59 => returns (-1, os)
  | 60 => (none, syscallExit t a1 os)
  -- `SYS_GAME_INIT`, `SYS_GAME_CLEAR` and `SYS_GAME_FLIP`
  | 70 | 71 | 72 => returns (0, os)
  -- `SYS_GAME_AUDIO_OPEN` and `SYS_GAME_AUDIO_PLAY`
  | 73 | 74 => returns (-1, os)
  -- `SYS_BEEP` and `SYS_DIAG_TASKS`
  | 80 | 81 => returns (0, os)
  | 82 => returns (syscallDiagStats choice t a1 os)
  | 83 => returns (0, { os with sockets := socketClose os.sockets (int32 a1) })
  | 84 => returns (syscallRecv choice t a1 a2 a3 os)
  | 85 => returns (syscallSend choice t a1 a2 a3 os)
  | 86 => returns (onSockets os fun sockets => socketAccept sockets (int32 a1))
  | 87 => returns (onSockets os fun sockets => socketListen sockets (int32 a1))
  | 88 => returns (onSockets os fun sockets => socketBind sockets (int32 a1) (a2 % 2 ^ 16))
  | 89 => returns (onSockets os fun sockets =>
      socketConnect sockets (int32 a1) (a2 % 2 ^ 32) (a3 % 2 ^ 16))
  | 90 => returns (onSockets os fun sockets => socketCreate sockets (int32 a1) (int32 a2))
  | 91 => syscallIpcRecv choice t a1 a2 a3 os
  | 92 => returns (syscallIpcSend choice t a1 a2 a3 os)
  | 93 => returns (syscallIpcCreate t a1 os)
  -- `SYS_SHM_FREE`, `SYS_SHM_ALLOC` and `SYS_SHM_GET`
  | 94 | 96 | 97 => returns (-1, os)
  | 95 => (some 0, { os with kernel := taskSleepMs os.kernel (a1 % 2 ^ 32) })
  | 98 => (some 0, { os with kernel := (schedulerYield os.kernel .returning).getD os.kernel })
  -- `SYS_PRINT`
  | 99 =>
      returns (if a1 = 0 then 0 else if (copyInString os t a1 256).isNone then -1 else 0, os)
  | _ => returns (-1, os)

/-- A node as the loader sees it. -/
def toVfsNode (os : Os) : Node → VfsNode
  | .device => deviceNode
  | .root => fat32Root
  | .file _ size cluster =>
      ⟨vfsFile, size, some fun offset count =>
        (fat32VfsRead os.volume size cluster offset count os.drive).1⟩

/-- The lookup of the volume as the loader sees it. -/
def findFile (os : Os) (block : Bool) (path : String) : Option VfsNode :=
  (fat32VfsFinddir os.volume block (path.toList.map fun char => UInt8.ofNat char.toNat)
    os.drive).1.map (toVfsNode os)

/-- What `syscall_exec_from_frame` works on. -/
def execState (choice : Choice) (t : TaskId) (frame : RegFrame) (os : Os) : ExecState where
  system :=
    { machine := os.machine
      current := some fun fd =>
        let f := (os.processes t).fds fd
        ⟨f.node.map (toVfsNode os), f.offset, f.flags⟩
      kmalloc := choice.kmalloc }
  task :=
    { isUser := (os.kernel.tasks t).isUser
      addressSpace := (os.processes t).addressSpace
      capabilities := (os.processes t).capabilities
      mm := (os.processes t).mm
      userRsp := (os.processes t).userRsp }
  frame := frame

/-- The descriptors after the loader has worked on them: it only closes what it has
opened. -/
def closedBy (current : Option FdTable) (fds : Nat → Descriptor) : Nat → Descriptor :=
  match current with
  | none => fds
  | some table => fun fd =>
      if (table fd).node.isNone then ⟨none, (table fd).offset, (table fd).flags⟩ else fds fd

/-- `syscall_exec_from_frame` for a task: whether the file is executed, and the registers. -/
def syscallExec (choice : Choice) (t : TaskId) (frame : RegFrame) (os : Os) :
    (Bool × RegFrame) × Os :=
  match execFromFrame (findFile os (choice.kmalloc nodeSize)) choice.blocks
      (execState choice t frame os) with
  | (ok, state) =>
      ((ok, state.frame),
        { os with
          machine := if ok then { state.system.machine with cr3 := state.task.mm.pml4 }
            else state.system.machine
          drive := { os.drive with transfers := os.drive.transfers + choice.transfers }
          }.updateProcess t fun process =>
            { process with
              mm := state.task.mm
              userRsp := state.task.userRsp
              fds := closedBy state.system.current process.fds })

/-- What happens to the system while user tasks run. -/
inductive Event where
  /-- The running task makes a system call. -/
  | call (num a1 a2 a3 : Nat) (choice : Choice)
  /-- The running task executes a file. -/
  | exec (frame : RegFrame) (choice : Choice)
  /-- The kernel goes on in a task that it has switched back to. -/
  | resume
  | timerHandler
  /-- A key is pressed; `keyboard_handler` has stored it. -/
  | key (char : UInt8)

/-- A waiting receiver that the kernel has gone on with: its call may return now. -/
def resumed (os : Os) : Os :=
  match os.kernel.current with
  | none => { os with kernel := resume os.kernel }
  | some t =>
      let after := { os with kernel := resume os.kernel }
      match (os.processes t).receiving with
      | none => after
      | some (a2, a3) => (afterRecv t a2 a3 after).2

/-- The system after an event. -/
def Os.after (os : Os) : Event → Os
  | .call num a1 a2 a3 choice =>
      match os.kernel.current with
      | none => os
      | some t => (syscallDispatch choice t num a1 a2 a3 os).2
  | .exec frame choice =>
      match os.kernel.current with
      | none => os
      | some t => (syscallExec choice t frame os).2
  | .resume => resumed os
  | .timerHandler => { os with kernel := timerHandler os.kernel }
  | .key char => { os with keyboard := os.keyboard ++ [char] }

/-- Calls come from user tasks, and the kernel goes on after a switch. -/
def Os.Enabled (os : Os) : Event → Prop
  | .call .. | .exec .. =>
      os.kernel.control = .task ∧ ∃ t, os.kernel.current = some t ∧ (os.kernel.tasks t).isUser
  | .resume => os.kernel.control = .resuming
  | .timerHandler => os.kernel.control = .task ∨ os.kernel.control = .halted
  | .key _ => True

/-- One step of the system. -/
def OsStep (os : Os) (event : Event) (os' : Os) : Prop :=
  os.Enabled event ∧ os' = os.after event

end Charis.Syscall
