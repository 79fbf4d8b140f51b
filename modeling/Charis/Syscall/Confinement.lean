import Charis.Syscall.Calls

/-!
# What system calls leave alone

A task without the capability to write files changes no sector of the disk, whatever calls
it makes, and no call of any task changes a capability.  That the data of the kernel is
apart from the memory of tasks is part of the model, and so is that no edit of page tables
by `exec` makes it otherwise.
-/

namespace Charis.Syscall

open Charis.Lib
open Charis.Fs
open Charis.Sched
open Charis.Exec
open Charis.Memory

/-- The sectors of the disk and the capabilities of all tasks are kept. -/
structure Keeps (before after : Os) : Prop where
  sectors : after.drive.sectors = before.drive.sectors
  capabilities : ∀ t, (after.processes t).capabilities = (before.processes t).capabilities

namespace Keeps

variable {os os' os'' : Os} {t : TaskId}

theorem refl (os : Os) : Keeps os os := ⟨rfl, fun _ => rfl⟩

theorem trans (first : Keeps os os') (second : Keeps os' os'') : Keeps os os'' :=
  ⟨second.sectors.trans first.sectors,
    fun t => (second.capabilities t).trans (first.capabilities t)⟩

theorem drive {drive : Drive} (same : drive.sectors = os.drive.sectors) :
    Keeps os { os with drive } :=
  ⟨same, fun _ => rfl⟩

theorem updateProcess (os : Os) (t : TaskId) (change : Process → Process)
    (same : (change (os.processes t)).capabilities = (os.processes t).capabilities) :
    Keeps os (os.updateProcess t change) := by
  refine ⟨rfl, ?_⟩
  intro u
  dsimp only [Os.updateProcess]
  by_cases here : u = t
  · rw [here, Function.update_self, same]
  · rw [Function.update_of_ne here]

theorem updateFd {fd : Nat} {change : Descriptor → Descriptor} :
    Keeps os (os.updateFd t fd change) :=
  updateProcess os t _ rfl

end Keeps

section Handlers

variable {os : Os} {t : TaskId} {choice : Choice} {a1 a2 a3 : Nat}

theorem copyOut_keeps (address : Nat) (bytes : List UInt8) :
    Keeps os (copyOut os t address bytes).2 := ⟨rfl, fun _ => rfl⟩

theorem deliver_keeps (fd : Int) (address : Nat) (bytes : List UInt8) :
    Keeps os (deliver os t fd address bytes).2 := by
  unfold deliver
  split
  · exact .refl os
  have copied := @copyOut_keeps os t address bytes
  generalize copyOut os t address bytes = result at copied ⊢
  rcases result with ⟨_ | _, os'⟩
  · exact copied
  · dsimp only
    split
    · exact copied
    · exact copied.trans .updateFd

theorem fdAlloc_keeps (node : Node) (flags : Nat) : Keeps os (fdAlloc os t node flags).2 := by
  unfold fdAlloc
  split
  · exact .refl os
  · dsimp only
    exact .updateFd

theorem fdClose_keeps (fd : Int) : Keeps os (fdClose os t fd) := by
  unfold fdClose
  split
  · exact .updateFd
  · exact .refl os

theorem fat32VfsRead_sectors {volume : Volume} {size cluster offset count : Nat}
    {drive : Drive} :
    (fat32VfsRead volume size cluster offset count drive).2.sectors = drive.sectors :=
  fsRead_sectors _ _

theorem syscallRead_keeps : Keeps os (syscallRead choice t a1 a2 a3 os).2 := by
  unfold syscallRead
  split
  · exact .refl os
  · exact .refl os
  next node offset flags found =>
  split
  · exact .refl os
  split
  · exact .refl os
  split
  · exact .refl os
  split
  · have typed : Keeps os { os with keyboard := os.keyboard.tail } := ⟨rfl, fun _ => rfl⟩
    exact typed.trans (deliver_keeps _ _ _)
  cases node with
  | device => exact .refl os
  | root => exact .refl os
  | file name size cluster =>
  have read := @fat32VfsRead_sectors os.volume size cluster offset a3 os.drive
  dsimp only
  generalize fat32VfsRead os.volume size cluster offset a3 os.drive = result at read ⊢
  rcases result with ⟨_ | bytes, drive⟩
  · exact .drive read
  · dsimp only
    split
    · exact .drive read
    · exact (Keeps.drive read).trans (deliver_keeps _ _ _)

/-- Without the capability, nothing is written. -/
theorem syscallWrite_keeps (without : checkCapability (os.processes t) capFsWrite = false) :
    Keeps os (syscallWrite choice t a1 a2 a3 os).2 := by
  unfold syscallWrite
  split
  · exact .refl os
  · exact .refl os
  next node offset flags found =>
  split
  · exact .refl os
  split
  · exact .refl os
  split
  · exact .refl os
  split
  · exact .refl os
  split
  · exact .refl os
  cases node with
  | device => exact .refl os
  | root => exact .refl os
  | file name size cluster =>
      dsimp only
      rw [without]
      exact .refl os

theorem fat32VfsFinddir_sectors {volume : Volume} {block : Bool} {name : List UInt8}
    {drive : Drive} : (fat32VfsFinddir volume block name drive).2.sectors = drive.sectors := by
  unfold fat32VfsFinddir
  have opened := @fsOpen_sectors volume drive name
  generalize fsOpen volume name drive = result at opened ⊢
  rcases result with ⟨_ | file, drive'⟩
  · exact opened
  · exact opened

theorem resolve_sectors {volume : Volume} {block : Bool} {path : List UInt8} {drive : Drive} :
    (resolve volume block path drive).2.sectors = drive.sectors := by
  unfold resolve
  split
  · rfl
  split
  · exact fat32VfsFinddir_sectors
  · rfl

theorem syscallOpen_keeps : Keeps os (syscallOpen choice t a1 os).2 := by
  unfold syscallOpen
  split
  · exact .refl os
  split
  · exact .refl os
  split
  · exact .refl os
  next path _ =>
  have resolved := @resolve_sectors os.volume (choice.kmalloc nodeSize) path os.drive
  generalize resolve os.volume (choice.kmalloc nodeSize) path os.drive = result at resolved ⊢
  rcases result with ⟨_ | node, drive⟩
  · exact .drive resolved
  · dsimp only
    split
    · exact .drive resolved
    · exact (Keeps.drive resolved).trans (fdAlloc_keeps _ _)

theorem kernel_keeps (kernel : Kernel) : Keeps os { os with kernel } := ⟨rfl, fun _ => rfl⟩

theorem finishRecv_keeps : Keeps os (finishRecv t a2 a3 os).2 := by
  unfold finishRecv
  dsimp only
  split
  · exact .refl os
  have copied := @copyOut_keeps os t a2
    (os.kernel.reply.data.take (min os.kernel.reply.value a3).toNat)
  generalize copyOut os t a2 (os.kernel.reply.data.take (min os.kernel.reply.value a3).toNat) =
    result at copied ⊢
  rcases result with ⟨_ | _, os'⟩
  · exact copied
  · exact copied

theorem afterRecv_keeps : Keeps os (afterRecv t a2 a3 os).2 := by
  unfold afterRecv
  split
  · exact (Keeps.updateProcess os t ({ · with receiving := none }) rfl).trans finishRecv_keeps
  · exact Keeps.updateProcess os t ({ · with receiving := some (a2, a3) }) rfl

theorem syscallIpcRecv_keeps : Keeps os (syscallIpcRecv choice t a1 a2 a3 os).2 := by
  unfold syscallIpcRecv
  split
  · exact .refl os
  split
  · exact .refl os
  · exact (kernel_keeps _).trans afterRecv_keeps

theorem syscallIpcSend_keeps : Keeps os (syscallIpcSend choice t a1 a2 a3 os).2 := by
  unfold syscallIpcSend
  split
  · exact .refl os
  split
  · exact .refl os
  split
  · exact .refl os
  · exact kernel_keeps _

theorem syscallIpcCreate_keeps : Keeps os (syscallIpcCreate t a1 os).2 := by
  unfold syscallIpcCreate
  split
  · exact .refl os
  split
  · exact .refl os
  · exact kernel_keeps _

theorem syscallExit_keeps : Keeps os (syscallExit t a1 os) := by
  have closed := Keeps.updateProcess os t
    (fun process => { process with fds := fdTableCloseAll process.fds }) rfl
  exact closed.trans (kernel_keeps _)

theorem syscallSend_keeps : Keeps os (syscallSend choice t a1 a2 a3 os).2 := by
  unfold syscallSend
  split
  · exact .refl os
  split
  · exact .refl os
  split
  · exact .refl os
  split
  · exact .refl os
  · exact .refl os

theorem syscallRecv_keeps : Keeps os (syscallRecv choice t a1 a2 a3 os).2 := by
  unfold syscallRecv
  split
  · exact .refl os
  split
  · exact .refl os
  split
  · exact .refl os
  dsimp only
  split
  · exact .refl os
  have copied := @copyOut_keeps os t a2
    (choice.received.2.take (min choice.received.1 a3).toNat)
  generalize copyOut os t a2 (choice.received.2.take (min choice.received.1 a3).toNat) =
    result at copied ⊢
  rcases result with ⟨_ | _, os'⟩
  · exact copied
  · exact copied

theorem syscallDiagStats_keeps : Keeps os (syscallDiagStats choice t a1 os).2 := by
  unfold syscallDiagStats
  split
  · exact .refl os
  have copied := @copyOut_keeps os t a1 choice.statistics
  generalize copyOut os t a1 choice.statistics = result at copied ⊢
  rcases result with ⟨_ | _, os'⟩
  · exact copied
  · exact copied

theorem onSockets_keeps (call : Sockets → Int × Sockets) : Keeps os (onSockets os call).2 :=
  ⟨rfl, fun _ => rfl⟩

/-- No call of a task without the capability to write files changes the disk, and none
changes a capability. -/
theorem syscallDispatch_keeps (num : Nat)
    (without : checkCapability (os.processes t) capFsWrite = false) :
    Keeps os (syscallDispatch choice t num a1 a2 a3 os).2 := by
  unfold syscallDispatch
  dsimp only [returns]
  split
  · exact syscallRead_keeps
  · exact syscallWrite_keeps without
  · exact syscallOpen_keeps
  · exact fdClose_keeps _
  · exact .refl os
  · exact .refl os
  · exact .refl os
  · exact syscallExit_keeps
  · exact .refl os
  · exact .refl os
  · exact .refl os
  · exact .refl os
  · exact .refl os
  · exact .refl os
  · exact .refl os
  · exact syscallDiagStats_keeps
  · exact ⟨rfl, fun _ => rfl⟩
  · exact syscallRecv_keeps
  · exact syscallSend_keeps
  · exact onSockets_keeps fun sockets => socketAccept sockets (int32 a1)
  · exact onSockets_keeps fun sockets => socketListen sockets (int32 a1)
  · exact onSockets_keeps fun sockets => socketBind sockets (int32 a1) (a2 % 2 ^ 16)
  · exact onSockets_keeps fun sockets =>
      socketConnect sockets (int32 a1) (a2 % 2 ^ 32) (a3 % 2 ^ 16)
  · exact onSockets_keeps fun sockets => socketCreate sockets (int32 a1) (int32 a2)
  · exact syscallIpcRecv_keeps
  · exact syscallIpcSend_keeps
  · exact syscallIpcCreate_keeps
  · exact .refl os
  · exact .refl os
  · exact .refl os
  · exact kernel_keeps _
  · exact kernel_keeps _
  · exact .refl os
  · exact .refl os

theorem syscallExec_keeps (frame : RegFrame) : Keeps os (syscallExec choice t frame os).2 := by
  unfold syscallExec
  rcases execFromFrame (findFile os (choice.kmalloc nodeSize)) choice.blocks
    (execState choice t frame os) with ⟨ok, state⟩
  refine Keeps.trans ?_ (Keeps.updateProcess _ t (fun process =>
    { process with
      mm := state.task.mm
      userRsp := state.task.userRsp
      fds := closedBy state.system.current process.fds }) rfl)
  exact ⟨rfl, fun _ => rfl⟩

end Handlers

/-- The running task makes no call, or has not the capability to write files. -/
def Unprivileged (os : Os) : Event → Prop
  | .call .. | .exec .. => ∀ t, os.kernel.current = some t →
      checkCapability (os.processes t) capFsWrite = false
  | .resume | .timerHandler | .key _ => True

theorem resumed_keeps (os : Os) : Keeps os (resumed os) := by
  unfold resumed
  split
  · exact kernel_keeps _
  dsimp only
  split
  · exact kernel_keeps _
  · exact (kernel_keeps _).trans afterRecv_keeps

/-- One step. -/
theorem after_keeps {os : Os} {event : Event} (unprivileged : Unprivileged os event) :
    Keeps os (os.after event) := by
  cases event with
  | call num a1 a2 a3 choice =>
      unfold Os.after
      dsimp only
      split
      · exact .refl os
      · next t current => exact syscallDispatch_keeps num (unprivileged t current)
  | exec frame choice =>
      unfold Os.after
      dsimp only
      split
      · exact .refl os
      · exact syscallExec_keeps frame
  | resume => exact resumed_keeps os
  | timerHandler => exact kernel_keeps _
  | key char => exact ⟨rfl, fun _ => rfl⟩

/-- Whatever calls user tasks make, in whatever order: if none of them has the capability to
write files, no sector changes, and no task's capabilities change. -/
theorem calls_confined {os os' : Os} {events : List Event}
    (run : Run (Restrict OsStep Unprivileged) os events os') :
    os'.drive.sectors = os.drive.sectors ∧
      ∀ t, (os'.processes t).capabilities = (os.processes t).capabilities := by
  have keeps : Keeps os os' := by
    induction run with
    | start => exact .refl os
    | next run last ih =>
        obtain ⟨unprivileged, -, same⟩ := last
        rw [same]
        exact ih.trans (after_keeps unprivileged)
  exact ⟨keeps.sectors, keeps.capabilities⟩

/-- The page at `0x1000` is mapped to a frame of the user. -/
def readerMemory : ByteMemory :=
  ByteMemory.writeLE (fun _ => 0) 0x101000 8 0x102007
    |>.writeLE 0x102000 8 0x103007 |>.writeLE 0x103000 8 0x104007 |>.writeLE 0x104008 8 0x105007

/-- A user task that may read files, with a file open. -/
def reader : Os where
  kernel :=
    { tasks := fun _ => { state := .running, pid := 1, isUser := true, started := true }
      order := [0]
      current := some 0
      timerFrequencyHz := 100
      executing := some 0
      control := .task }
  processes := fun _ =>
    { capabilities := capFsRead
      addressSpace := 0x101000
      mm := { pml4 := 0x101000, heapStart := 0, heapEnd := 0, stackTop := 0 }
      userRsp := 0
      fds := fun fd => if fd < 3 then { node := some .device }
        else if fd = 3 then { node := some (.file [65] 10 3) } else {}
      receiving := none }
  machine := { memory := readerMemory, pmm := bootPmm, cr3 := 0x101000 }
  volume := unmounted
  drive := { sectors := fun _ _ => 0, outcome := fun _ => .done }
  sockets := fun _ => {}
  keyboard := []

/-- Nothing fails that the kernel does not decide. -/
def generous : Choice where
  kmalloc := fun _ => true
  blocks := ⟨true, true⟩
  sent := 0
  received := (0, [])
  statistics := []
  transfers := 0

/-- The reader yields and tries to write to its file, which it may not do. -/
theorem calls_confined_reader :
    let os := (reader.after (.call 98 0 0 0 generous)).after (.call 1 3 0x1000 16 generous)
    os.drive.sectors = reader.drive.sectors ∧
      ∀ t, (os.processes t).capabilities = (reader.processes t).capabilities := by
  have without : ∀ {event : Event} {os : Os}, (∀ t, (os.processes t).capabilities = capFsRead) →
      Unprivileged os event := by
    intro event os caps
    cases event with
    | call | exec =>
        intro t _
        rw [checkCapability, caps t]
        rfl
    | resume | timerHandler | key => trivial
  have step : ∀ (os : Os) (num a1 a2 a3 : Nat), os.kernel.control = .task →
      os.kernel.current = some 0 → (os.kernel.tasks 0).isUser = true →
      (∀ t, (os.processes t).capabilities = capFsRead) →
      Restrict OsStep Unprivileged os (.call num a1 a2 a3 generous)
        (os.after (.call num a1 a2 a3 generous)) :=
    fun _ _ _ _ _ control current user caps => ⟨without caps, ⟨control, 0, current, user⟩, rfl⟩
  have first : Keeps reader (reader.after (.call 98 0 0 0 generous)) :=
    after_keeps (without fun _ => rfl)
  exact calls_confined ((Run.start.next (step reader 98 0 0 0 rfl rfl rfl fun _ => rfl)).next
    (step _ 1 3 0x1000 16 rfl rfl rfl first.capabilities))

end Charis.Syscall
