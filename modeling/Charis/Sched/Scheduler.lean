import Mathlib
import Charis.Ipc.Pipe

/-!
# The scheduler and what blocks on it

The task table, the scheduler's list of tasks, context switches, sleeping, channels, pipes
and exits.  A task that has been switched away from is described by what its saved stack
pointer leads back to, so that a switch to it either starts the task or continues inside
the kernel.

Descriptors, user memory and signals (nothing sends one) are left out.
-/

namespace Charis.Sched

abbrev taskMaxTasks : Nat := 32
abbrev taskStackGuard : Nat := 4096
abbrev taskDefaultQuantum : Nat := 10

/-- `'SLEP'`: blocked until the deadline in `eventData`. -/
abbrev taskWaitingSleep : Nat := 0x534C4550

/-- A slot of the task table. -/
abbrev TaskId := Fin taskMaxTasks

abbrev ChannelId := Fin 32
abbrev PipeId := Fin 32

instance slots_neZero : NeZero 32 := ⟨by decide⟩

inductive TaskState where
  | ready
  | running
  | blocked
  | zombie
  | unused
  deriving DecidableEq, Repr

/-- What a task goes on with when `scheduler_schedule` returns to it. -/
inductive Point where
  /-- The caller returns to the task. -/
  | returning
  /-- The wait loop of `ipc_recv`, with the generation that it has seen; the slot had been
  closed the given number of times by then. -/
  | receiving (channel : ChannelId) (generation maxSize closes : Nat)
  /-- The loop at the end of `task_exit_with_status`. -/
  | exiting
  deriving DecidableEq, Repr

/-- What the saved stack pointer of a task points to. -/
inductive Frame where
  /-- Saved registers above the address of `task_trampoline`. -/
  | trampoline
  /-- Saved registers above a frame for `iretq`. -/
  | interrupt
  /-- Saved registers of a call of `context_switch` in `scheduler_schedule`. -/
  | suspended (point : Point)
  deriving DecidableEq, Repr

structure Task where
  state : TaskState := .unused
  pid : Nat := 0
  exitCode : Nat := 0
  parentPid : Nat := 0
  remainingQuantum : Nat := taskDefaultQuantum
  stackBase : Nat := 0
  guardPageAddr : Nat := 0
  eventData : Nat := 0
  waitingEvent : Nat := 0
  isUser : Bool := false
  started : Bool := false
  ipcWaitNext : Option TaskId := none
  /-- What `rsp` points to. -/
  frame : Frame := .trampoline

abbrev ipcMaxMsgSize : Nat := 512
abbrev ipcMaxMessages : Nat := 16
export Charis.Ipc (pipeBufferSize)

structure Message where
  senderPid : Nat := 0
  data : List UInt8 := []

structure Channel where
  inUse : Bool := false
  messages : Nat → Message := fun _ => {}
  head : Nat := 0
  tail : Nat := 0
  count : Nat := 0
  generation : Nat := 1
  waitHead : Option TaskId := none
  /-- How often the slot has been closed. -/
  closes : Nat := 0
  /-- What `ipc_send` has accepted since the channel was created. -/
  sent : List (List UInt8) := []
  /-- What `ipc_recv` has returned since then, with the sizes that were asked for. -/
  received : List (Nat × List UInt8) := []

structure Pipe where
  content : List UInt8 := []
  reader : Option TaskId := none
  writer : Option TaskId := none
  readFd : Int := -1
  writeFd : Int := -1

/-- Where the processor is. -/
inductive Control where
  /-- In the boot code, before `scheduler_start` has picked a task. -/
  | boot
  /-- In a task, to which the kernel has returned. -/
  | task
  /-- In `scheduler_schedule`, just after a switch back to a task. -/
  | resuming
  /-- In the loop at the end of `task_exit_with_status`. -/
  | halted
  /-- At an address popped from a frame of another layout. -/
  | lost
  deriving DecidableEq, Repr

/-- What a call hands back to the task that made it. -/
structure Reply where
  value : Int := 0
  data : List UInt8 := []

structure Kernel where
  tasks : TaskId → Task := fun _ => {}
  /-- The tasks from `ready_head` to `ready_tail`. -/
  order : List TaskId := []
  current : Option TaskId := none
  nextPid : Nat := 1
  pendingStack : Nat := 0
  pendingTask : Option TaskId := none
  channels : ChannelId → Channel := fun _ => {}
  pipes : PipeId → Pipe := fun _ => {}
  timerTicks : Nat := 0
  timerFrequencyHz : Nat
  /-- The task on whose stack the processor is. -/
  executing : Option TaskId := none
  control : Control := .boot
  reply : Reply := {}
  /-- The task for which an allocated stack block was made. -/
  stackOwner : Nat → Option TaskId := fun _ => none
  /-- How often the stack of the task in a slot has been freed. -/
  released : TaskId → Nat := fun _ => 0
  /-- Calls of `kfree` with a pointer to no allocated stack. -/
  invalidFrees : Nat := 0
  /-- The tasks that have exited, in order. -/
  exited : List TaskId := []

namespace Kernel

def updateTask (k : Kernel) (t : TaskId) (change : Task → Task) : Kernel :=
  { k with tasks := Function.update k.tasks t (change (k.tasks t)) }

def setState (k : Kernel) (t : TaskId) (state : TaskState) : Kernel :=
  k.updateTask t fun task => { task with state }

def updateChannel (k : Kernel) (c : ChannelId) (change : Channel → Channel) : Kernel :=
  { k with channels := Function.update k.channels c (change (k.channels c)) }

def updatePipe (k : Kernel) (p : PipeId) (change : Pipe → Pipe) : Kernel :=
  { k with pipes := Function.update k.pipes p (change (k.pipes p)) }

def answer (k : Kernel) (value : Int) (data : List UInt8 := []) : Kernel :=
  { k with reply := { value, data } }

end Kernel

/-! ## Stacks

Only the blocks that hold kernel stacks are followed.  `kmalloc` is free to return any
block that is not allocated, or to fail. -/

def kmalloc (k : Kernel) (t : TaskId) (stack : Nat) : Kernel :=
  { k with
    stackOwner := Function.update k.stackOwner stack (some t)
    released := Function.update k.released t 0 }

def kfree (k : Kernel) (stack : Nat) : Kernel :=
  match k.stackOwner stack with
  | some t =>
      { k with
        stackOwner := Function.update k.stackOwner stack none
        released := Function.update k.released t (k.released t + 1) }
  | none => { k with invalidFrees := k.invalidFrees + 1 }

def taskDeferRelease (k : Kernel) (t : TaskId) : Kernel :=
  let task := k.tasks t
  let k :=
    if task.stackBase ≠ 0 ∨ task.guardPageAddr ≠ 0 then
      { k with
        pendingTask := some t
        pendingStack := if task.guardPageAddr ≠ 0 then task.guardPageAddr else task.stackBase
        }.updateTask t fun task => { task with stackBase := 0, guardPageAddr := 0 }
    else k
  k.setState t .zombie

def taskReleasePending (k : Kernel) : Kernel :=
  if k.pendingStack = 0 then k
  else
    let k' := kfree { k with pendingStack := 0, pendingTask := none } k.pendingStack
    match k.pendingTask with
    | some t => k'.setState t .zombie
    | none => k'

def taskAllocate (k : Kernel) : Option TaskId :=
  (List.finRange taskMaxTasks).find? fun t => (k.tasks t).state = .unused

def taskInitCommon (k : Kernel) (t : TaskId) (isUser : Bool) (stack : Nat) : Kernel :=
  let parentPid := match k.current with
    | some parent => (k.tasks parent).pid
    | none => 0
  { k with nextPid := (k.nextPid + 1) % 2 ^ 32 }.updateTask t fun task =>
    { task with
      stackBase := stack + taskStackGuard
      guardPageAddr := stack
      isUser
      started := false
      pid := k.nextPid
      exitCode := 0
      parentPid
      state := .ready
      remainingQuantum := taskDefaultQuantum
      eventData := 0
      waitingEvent := 0 }

/-- `task_create`, given what `kmalloc` returns and whether an address space can be made. -/
def taskCreate (k : Kernel) (isUser : Bool) (stack : Option Nat) (addressSpace : Bool) :
    Option TaskId × Kernel :=
  match taskAllocate k, stack with
  | none, _ => (none, k)
  | some _, none => (none, k)
  | some t, some stack =>
      let k := taskInitCommon (kmalloc k t stack) t isUser stack
      if isUser && !addressSpace then
        (none, (kfree k stack).updateTask t fun task =>
          { task with
            state := .unused
            pid := 0
            parentPid := 0
            exitCode := 0
            stackBase := 0
            guardPageAddr := 0 })
      else
        (some t, k.updateTask t fun task =>
          { task with frame := if isUser then .interrupt else .trampoline })

def schedulerAddTask (k : Kernel) (t : TaskId) : Kernel :=
  { k.setState t .ready with order := k.order ++ [t] }

/-- A task is created and handed to the scheduler, as everything that creates one does. -/
def spawn (k : Kernel) (isUser : Bool) (stack : Option Nat) (addressSpace : Bool) : Kernel :=
  match taskCreate k isUser stack addressSpace with
  | (some t, k) => schedulerAddTask k t
  | (none, k) => k

/-- The order in which `scheduler_find_next` looks at the tasks: once around the list, from
the one after the current task. -/
def searchOrder (k : Kernel) : List TaskId :=
  match k.current with
  | none => k.order
  | some t => (k.order.dropWhile (· ≠ t)).drop 1 ++ k.order.takeWhile (· ≠ t) ++ [t]

def schedulerFindNext (k : Kernel) : Option TaskId :=
  (searchOrder k).find? fun t => (k.tasks t).state = .ready

/-- The part of `context_switch` after the stack has been changed: six registers are popped
and then either `ret` or `iretq` takes what lies above them. -/
def contextSwitch (k : Kernel) (next : TaskId) (useIret : Bool) : Kernel :=
  { k with
    executing := some next
    control := match (k.tasks next).frame, useIret with
      | .trampoline, false => .task
      | .interrupt, true => .task
      | .suspended _, false => .resuming
      | _, _ => .lost }

/-- The task is made current and entered. -/
def switchTo (k : Kernel) (next : TaskId) : Kernel :=
  let task := k.tasks next
  contextSwitch
    ({ k with current := some next }.updateTask next fun task =>
      { task with state := .running, started := true })
    next (task.isUser && !task.started)

def schedulerStart (k : Kernel) : Kernel :=
  match k.order with
  | [] => k
  | next :: _ => switchTo k next

/-- `scheduler_schedule` up to the switch; nothing when it returns without one.  The point is
where the task goes on that is switched away from. -/
def schedulerSchedule (k : Kernel) (point : Point) : Option Kernel :=
  match schedulerFindNext k with
  | none => none
  | some next =>
      if k.current = some next then none
      else
        match k.current with
        | none => some (switchTo k next)
        | some previous =>
            some (switchTo (k.updateTask previous fun task =>
              { task with
                state := if task.state = .running then .ready else task.state
                frame := .suspended point }) next)

def schedulerYield (k : Kernel) (point : Point) : Option Kernel :=
  match k.current with
  | none => none
  | some _ => schedulerSchedule k point

/-! ## Blocking and waking -/

def schedulerBlockTask (k : Kernel) (t : TaskId) : Kernel :=
  k.setState t .blocked

def schedulerUnblockTask (k : Kernel) (t : TaskId) : Kernel :=
  if (k.tasks t).state = .blocked then k.setState t .ready else k

def timerGetMs (k : Kernel) : Nat :=
  k.timerTicks * 1000 % 2 ^ 64 / k.timerFrequencyHz

def taskWakeSleepers (k : Kernel) (now : Nat) : Kernel :=
  { k with
    tasks := fun t =>
      let task := k.tasks t
      if task.state = .blocked ∧ task.waitingEvent = taskWaitingSleep ∧ task.eventData ≤ now then
        { task with waitingEvent := 0, eventData := 0, state := .ready }
      else task }

/-- Without a current task the processor waits for the timer, whose interrupts are steps of
their own. -/
def taskSleepMs (k : Kernel) (ms : Nat) : Kernel :=
  if ms = 0 then k
  else
    match k.current with
    | none => k
    | some t =>
        let k := k.updateTask t fun task =>
          { task with
            eventData := (timerGetMs k + ms) % 2 ^ 64
            waitingEvent := taskWaitingSleep
            state := .blocked }
        (schedulerYield k .returning).getD k

def timerHandler (k : Kernel) : Kernel :=
  let k := { k with timerTicks := (k.timerTicks + 1) % 2 ^ 64 }
  let k := taskWakeSleepers k (timerGetMs k)
  match k.current with
  | none => k
  | some t =>
      let quantum := (k.tasks t).remainingQuantum - 1
      if quantum = 0 then
        let k := k.updateTask t ({ · with remainingQuantum := taskDefaultQuantum })
        (schedulerSchedule k (if k.control = .halted then .exiting else .returning)).getD k
      else k.updateTask t ({ · with remainingQuantum := quantum })

def channelIndex (channel : Int) : Option ChannelId :=
  if h : 0 ≤ channel ∧ channel < 32 then some ⟨channel.toNat, by omega⟩ else none

def ipcCreate (k : Kernel) : Kernel :=
  match (List.finRange 32).find? fun c => !(k.channels c).inUse with
  | some c =>
      (k.updateChannel c ({ · with
        inUse := true, head := 0, tail := 0, count := 0, waitHead := none
        sent := [], received := [] })).answer c
  | none => k.answer (-1)

/-- The walk of `ipc_remove_waiter` along the wait list, from a task and the one before it.
The list has no cycle, so it ends within the number of tasks. -/
def ipcUnlink (k : Kernel) (c : ChannelId) (target : TaskId) :
    Nat → Option TaskId → Option TaskId → Kernel
  | 0, _, _ => k
  | _ + 1, _, none => k
  | fuel + 1, previous, some t =>
      let next := (k.tasks t).ipcWaitNext
      if t = target then
        let k := match previous with
          | some p => k.updateTask p ({ · with ipcWaitNext := next })
          | none => k.updateChannel c ({ · with waitHead := next })
        k.updateTask t ({ · with ipcWaitNext := none })
      else ipcUnlink k c target fuel (some t) next

def ipcRemoveWaiter (k : Kernel) (c : ChannelId) (target : TaskId) : Kernel :=
  ipcUnlink k c target taskMaxTasks none (k.channels c).waitHead

def ipcWakeOne (k : Kernel) (c : ChannelId) : Kernel :=
  match (k.channels c).waitHead with
  | none => k
  | some waiter =>
      let next := (k.tasks waiter).ipcWaitNext
      schedulerUnblockTask
        ((k.updateChannel c ({ · with waitHead := next })).updateTask waiter
          ({ · with ipcWaitNext := none })) waiter

def ipcSend (k : Kernel) (channel : Int) (data : Option (List UInt8)) : Kernel :=
  match channelIndex channel with
  | none => k.answer (-1)
  | some c =>
      if !(k.channels c).inUse then k.answer (-1)
      else
        match data with
        | none => k.answer (-1)
        | some bytes =>
            if ipcMaxMessages ≤ (k.channels c).count then k.answer (-1)
            else
              let senderPid := match k.current with
                | some sender => (k.tasks sender).pid
                | none => 0
              let message : Message := { senderPid, data := bytes.take ipcMaxMsgSize }
              let k := k.updateChannel c fun channel =>
                { channel with
                  messages := Function.update channel.messages channel.head message
                  head := (channel.head + 1) % ipcMaxMessages
                  count := channel.count + 1
                  sent := channel.sent ++ [bytes] }
              (ipcWakeOne k c).answer 0

/-- The end of `ipc_recv`, with a message in the queue. -/
def ipcTake (k : Kernel) (c : ChannelId) (maxSize : Nat) : Kernel :=
  let data := ((k.channels c).messages (k.channels c).tail).data.take maxSize
  (k.updateChannel c fun channel =>
    { channel with
      tail := (channel.tail + 1) % ipcMaxMessages
      count := channel.count - 1
      received := channel.received ++ [(maxSize, data)] }).answer data.length data

/-- The receiver is put first in the wait list and blocks. -/
def ipcWait (k : Kernel) (t : TaskId) (c : ChannelId) : Kernel :=
  let k := ipcRemoveWaiter k c t
  let k := k.updateTask t ({ · with ipcWaitNext := (k.channels c).waitHead })
  schedulerBlockTask (k.updateChannel c ({ · with waitHead := some t })) t

/-- One round of the wait loop of `ipc_recv`.  When `scheduler_yield` returns without a
switch the receiver is still blocked and gives up. -/
def ipcReceive (k : Kernel) (c : ChannelId) (maxSize : Nat) : Kernel :=
  if (k.channels c).count ≠ 0 then ipcTake k c maxSize
  else
    match k.current with
    | none => k.answer (-1)
    | some t =>
        let waiting := ipcWait k t c
        match schedulerYield waiting
            (.receiving c (k.channels c).generation maxSize (k.channels c).closes) with
        | some k => k
        | none => ((ipcRemoveWaiter waiting c t).setState t .running).answer (-1)

def ipcRecv (k : Kernel) (channel : Int) (buf : Bool) (maxSize : Nat) : Kernel :=
  match channelIndex channel with
  | none => k.answer (-1)
  | some c =>
      if !(k.channels c).inUse then k.answer (-1)
      else if maxSize = 0 then k.answer 0
      else if !buf then k.answer (-1)
      else ipcReceive k c maxSize

/-- The wait loop after `scheduler_yield` has come back to the receiver. -/
def ipcResume (k : Kernel) (t : TaskId) (c : ChannelId) (generation maxSize : Nat) : Kernel :=
  if (k.tasks t).state = .blocked then
    ((ipcRemoveWaiter k c t).setState t .running).answer (-1)
  else if !(k.channels c).inUse ∨ (k.channels c).generation ≠ generation then k.answer (-1)
  else ipcReceive k c maxSize

/-- The loop of `ipc_close` that wakes a detached wait list. -/
def ipcWakeAll (k : Kernel) : Nat → Option TaskId → Kernel
  | 0, _ => k
  | _ + 1, none => k
  | fuel + 1, some waiter =>
      let next := (k.tasks waiter).ipcWaitNext
      ipcWakeAll
        (schedulerUnblockTask (k.updateTask waiter ({ · with ipcWaitNext := none })) waiter)
        fuel next

def ipcClose (k : Kernel) (channel : Int) : Kernel :=
  match channelIndex channel with
  | none => k
  | some c =>
      if !(k.channels c).inUse then k
      else
        let generation := ((k.channels c).generation + 1) % 2 ^ 32
        let generation := if generation = 0 then 1 else generation
        let waiters := (k.channels c).waitHead
        let k := k.updateChannel c ({ · with generation, waitHead := none })
        let k := ipcWakeAll k taskMaxTasks waiters
        k.updateChannel c fun channel =>
          { channel with
            inUse := false, head := 0, tail := 0, count := 0
            closes := channel.closes + 1 }

def pipeIndex (index : Int) : Option PipeId :=
  if h : 0 ≤ index ∧ index < 32 then some ⟨index.toNat, by omega⟩ else none

def pipeCreate (k : Kernel) : Kernel :=
  match (List.finRange 32).find? fun p => (k.pipes p).readFd = -1 with
  | some p =>
      (k.updatePipe p fun _ => { readFd := p * 2, writeFd := p * 2 + 1 }).answer p
  | none => k.answer (-1)

/-- The task, if any, waiting on a pipe is woken. -/
def wake (k : Kernel) (waiter : Option TaskId) : Kernel :=
  match waiter with
  | some t => schedulerUnblockTask k t
  | none => k

def pipeRead (k : Kernel) (fd : Int) (buf : Bool) (count : Nat) : Kernel :=
  match pipeIndex (fd.tdiv 2) with
  | none => k.answer (-1)
  | some p =>
      let pipe := k.pipes p
      if !buf then k.answer (-1)
      else if pipe.content = [] ∧ pipe.writeFd = -1 then k.answer 0
      else
        match pipe.content, k.current with
        | [], some t =>
            (schedulerBlockTask (k.updatePipe p ({ · with reader := some t })) t).answer (-2)
        | content, _ =>
            let data := content.take count
            let k := k.updatePipe p ({ · with content := content.drop count, writer := none })
            (wake k pipe.writer).answer data.length data

def pipeWrite (k : Kernel) (fd : Int) (data : Option (List UInt8)) : Kernel :=
  match pipeIndex ((fd - 1).tdiv 2) with
  | none => k.answer (-1)
  | some p =>
      let pipe := k.pipes p
      match data with
      | none => k.answer (-1)
      | some bytes =>
          let store :=
            let data := bytes.take (pipeBufferSize - pipe.content.length)
            let k := k.updatePipe p
              ({ · with content := pipe.content ++ data, reader := none })
            (wake k pipe.reader).answer data.length
          if pipeBufferSize ≤ pipe.content.length then
            match k.current with
            | some t =>
                (schedulerBlockTask (k.updatePipe p ({ · with writer := some t })) t).answer (-2)
            | none => store
          else store

def pipeClose (k : Kernel) (fd : Int) : Kernel :=
  if fd.tmod 2 = 0 then
    match pipeIndex (fd.tdiv 2) with
    | none => k
    | some p =>
        wake (k.updatePipe p ({ · with readFd := -1, writer := none })) (k.pipes p).writer
  else
    match pipeIndex ((fd - 1).tdiv 2) with
    | none => k
    | some p =>
        wake (k.updatePipe p ({ · with writeFd := -1, reader := none })) (k.pipes p).reader

def taskExitWithStatus (k : Kernel) (status : Nat) : Kernel :=
  match k.current with
  | none => { k with control := .halted }
  | some t =>
      let k := taskDeferRelease (k.updateTask t ({ · with exitCode := status })) t
      let k := { k with exited := k.exited ++ [t] }
      (schedulerYield k .exiting).getD { k with control := .halted }

/-- The rest of `scheduler_schedule` after a switch back to a task, and what its caller
does until it returns to the task. -/
def resume (k : Kernel) : Kernel :=
  match k.current with
  | none => k
  | some t =>
      match (k.tasks t).frame with
      | .suspended .returning => { taskReleasePending k with control := .task }
      | .suspended (.receiving c generation maxSize _) =>
          ipcResume { taskReleasePending k with control := .task } t c generation maxSize
      | .suspended .exiting => { taskReleasePending k with control := .halted }
      | .trampoline | .interrupt => k

inductive Event where
  | spawn (isUser : Bool) (stack : Option Nat) (addressSpace : Bool)
  | schedulerStart
  | schedulerYield
  | timerHandler
  | taskSleepMs (ms : Nat)
  | taskWakeSleepers (now : Nat)
  | schedulerBlockTask (t : TaskId)
  | schedulerUnblockTask (t : TaskId)
  | ipcCreate
  | ipcSend (channel : Int) (data : Option (List UInt8))
  | ipcRecv (channel : Int) (buf : Bool) (maxSize : Nat)
  | ipcClose (channel : Int)
  | pipeCreate
  | pipeRead (fd : Int) (buf : Bool) (count : Nat)
  | pipeWrite (fd : Int) (data : Option (List UInt8))
  | pipeClose (fd : Int)
  | taskExitWithStatus (status : Nat)
  /-- The kernel goes on in a task that it has switched back to. -/
  | resume

def Kernel.after (k : Kernel) : Event → Kernel
  | .spawn isUser stack addressSpace => spawn k isUser stack addressSpace
  | .schedulerStart => schedulerStart k
  | .schedulerYield => (schedulerYield k .returning).getD k
  | .timerHandler => timerHandler k
  | .taskSleepMs ms => taskSleepMs k ms
  | .taskWakeSleepers now => taskWakeSleepers k now
  | .schedulerBlockTask t => schedulerBlockTask k t
  | .schedulerUnblockTask t => schedulerUnblockTask k t
  | .ipcCreate => ipcCreate k
  | .ipcSend channel data => ipcSend k channel data
  | .ipcRecv channel buf maxSize => ipcRecv k channel buf maxSize
  | .ipcClose channel => ipcClose k channel
  | .pipeCreate => pipeCreate k
  | .pipeRead fd buf count => pipeRead k fd buf count
  | .pipeWrite fd data => pipeWrite k fd data
  | .pipeClose fd => pipeClose k fd
  | .taskExitWithStatus status => taskExitWithStatus k status
  | .resume => resume k

/-- When a step can happen.  Calls come from a task or from the boot code, the timer also
interrupts the loop of a task that has exited, and `kmalloc` returns a block that is not
allocated. -/
def Kernel.Enabled (k : Kernel) : Event → Prop
  | .resume => k.control = .resuming
  | .timerHandler => k.control = .boot ∨ k.control = .task ∨ k.control = .halted
  | .schedulerStart => k.control = .boot
  | .spawn _ stack _ =>
      (k.control = .boot ∨ k.control = .task) ∧
        ∀ block ∈ stack, block ≠ 0 ∧ k.stackOwner block = none
  | _ => k.control = .boot ∨ k.control = .task

instance (k : Kernel) : (event : Event) → Decidable (k.Enabled event)
  | .resume | .schedulerStart => inferInstanceAs (Decidable (_ = _))
  | .timerHandler => inferInstanceAs (Decidable (_ ∨ _ ∨ _))
  | .spawn _ stack _ =>
      inferInstanceAs (Decidable ((_ ∨ _) ∧ ∀ block ∈ stack, block ≠ 0 ∧ k.stackOwner block = none))
  | .schedulerYield | .taskSleepMs _ | .taskWakeSleepers _ | .schedulerBlockTask _
  | .schedulerUnblockTask _ | .ipcCreate | .ipcSend _ _ | .ipcRecv _ _ _ | .ipcClose _
  | .pipeCreate | .pipeRead _ _ _ | .pipeWrite _ _ | .pipeClose _ | .taskExitWithStatus _ =>
      inferInstanceAs (Decidable (_ ∨ _))

def Step (k : Kernel) (event : Event) (k' : Kernel) : Prop :=
  k.Enabled event ∧ k' = k.after event

end Charis.Sched
