import Charis.Lib.Ring
import Charis.Sched.Running

/-!
# Messages

A channel keeps its messages in a ring of sixteen slots with a head, a tail and a count.
Whatever senders and receivers do, the messages received are the messages sent, in order
and each once, and a receiver that waited on a channel that was closed since does not take
part in what the slot is used for afterwards.
-/

namespace Charis.Sched

open Charis.Lib

variable {k k' : Kernel} {point : Point}

/-- A saved stack leads back into the wait loop of `ipc_recv`. -/
def Frame.Receives (frame : Frame) (c : ChannelId) (generation maxSize closes : Nat) : Prop :=
  frame = .suspended (.receiving c generation maxSize closes)

/-- Channels, links and saved stacks are kept, and with them the current task. -/
structure Still (before after : Kernel) : Prop where
  channels : after.channels = before.channels
  links : ∀ t, (after.tasks t).ipcWaitNext = (before.tasks t).ipcWaitNext
  frames : ∀ t, (after.tasks t).frame = (before.tasks t).frame
  started : ∀ t, (after.tasks t).started = (before.tasks t).started
  unused : ∀ t, (after.tasks t).state = .unused → (before.tasks t).state = .unused
  current : after.current = before.current
  control : after.control = before.control

/-- A task has been made current.  If it had run before, the kernel goes on in it where it
was switched away from. -/
def Enters (before after : Kernel) (t : TaskId) : Prop :=
  after.current = some t ∧ (after.tasks t).started = true ∧ (after.tasks t).state = .running ∧
    ((before.tasks t).started = true →
      ∀ point, (after.tasks t).frame = .suspended point → after.control = .resuming)

/-- Channels and links are kept; only the current task and new tasks have another saved
stack, which is not that of a receiver. -/
structure Aside (before after : Kernel) : Prop where
  channels : after.channels = before.channels
  links : ∀ t, (after.tasks t).ipcWaitNext = (before.tasks t).ipcWaitNext
  frames : ∀ t, (after.tasks t).frame = (before.tasks t).frame ∨
    (before.current = some t ∨ (before.tasks t).state = .unused) ∧
      ∀ c generation maxSize closes, ¬ (after.tasks t).frame.Receives c generation maxSize closes
  started : ∀ t, (before.tasks t).state ≠ .unused → (before.tasks t).started = true →
    (after.tasks t).started = true
  unused : ∀ t, (after.tasks t).state = .unused → (before.tasks t).state = .unused
  entered : (after.current = before.current ∧
    (after.control = before.control ∨ after.control = .halted)) ∨ ∃ t, Enters before after t

namespace Still

variable {k'' : Kernel}

theorem refl (k : Kernel) : Still k k :=
  ⟨rfl, fun _ => rfl, fun _ => rfl, fun _ => rfl, fun _ => id, rfl, rfl⟩

theorem trans (first : Still k k') (second : Still k' k'') : Still k k'' where
  channels := second.channels.trans first.channels
  links t := (second.links t).trans (first.links t)
  frames t := (second.frames t).trans (first.frames t)
  started t := (second.started t).trans (first.started t)
  unused t unused := first.unused t (second.unused t unused)
  current := second.current.trans first.current
  control := second.control.trans first.control

theorem aside (still : Still k k') : Aside k k' where
  channels := still.channels
  links := still.links
  frames t := .inl (still.frames t)
  started t _ started := (still.started t).trans started
  unused := still.unused
  entered := .inl ⟨still.current, .inl still.control⟩

/-- What is aside stays so after a change that is still. -/
theorem trans_aside (still : Still k k') (aside : Aside k' k'') : Aside k k'' := by
  constructor
  · exact aside.channels.trans still.channels
  · intro t
    exact (aside.links t).trans (still.links t)
  · intro t
    rcases aside.frames t with same | ⟨where_, other⟩
    · exact .inl (same.trans (still.frames t))
    · right
      refine ⟨?_, other⟩
      rcases where_ with current | unused
      · exact .inl (still.current.symm.trans current)
      · exact .inr (still.unused t unused)
  · intro t used started
    exact aside.started t (fun unused => used (still.unused t unused))
      ((still.started t).trans started)
  · intro t unused
    exact still.unused t (aside.unused t unused)
  · rcases aside.entered with ⟨current, control⟩ | ⟨t, current, started, running, resumes⟩
    · left
      rw [← still.current, ← still.control]
      exact ⟨current, control⟩
    · right
      refine ⟨t, current, started, running, ?_⟩
      rw [← still.started]
      exact resumes

theorem updateTask (k : Kernel) (t : TaskId) {change : Task → Task}
    (link : (change (k.tasks t)).ipcWaitNext = (k.tasks t).ipcWaitNext)
    (frame : (change (k.tasks t)).frame = (k.tasks t).frame)
    (started : (change (k.tasks t)).started = (k.tasks t).started)
    (unused : (change (k.tasks t)).state = .unused → (k.tasks t).state = .unused) :
    Still k (k.updateTask t change) := by
  refine ⟨rfl, ?_, ?_, ?_, ?_, rfl, rfl⟩
  · intro u
    rw [updateTask_tasks]
    split
    · next same => rw [link, same]
    · rfl
  · intro u
    rw [updateTask_tasks]
    split
    · next same => rw [frame, same]
    · rfl
  · intro u
    rw [updateTask_tasks]
    split
    · next same => rw [started, same]
    · rfl
  · intro u
    rw [updateTask_tasks]
    split
    · next same =>
      rw [same]
      exact unused
    · exact id

theorem setState (k : Kernel) (t : TaskId) {state : TaskState} (used : state ≠ .unused) :
    Still k (k.setState t state) :=
  updateTask k t rfl rfl rfl fun unused => absurd unused used

theorem updatePipe (k : Kernel) (p : PipeId) (change : Pipe → Pipe) :
    Still k (k.updatePipe p change) :=
  ⟨rfl, fun _ => rfl, fun _ => rfl, fun _ => rfl, fun _ => id, rfl, rfl⟩

theorem answer (still : Still k k') (value : Int) (data : List UInt8) :
    Still k (k'.answer value data) :=
  still.trans ⟨rfl, fun _ => rfl, fun _ => rfl, fun _ => rfl, fun _ => id, rfl, rfl⟩

theorem unblock (k : Kernel) (t : TaskId) : Still k (schedulerUnblockTask k t) := by
  unfold schedulerUnblockTask
  split
  · exact setState k t (by simp)
  · exact refl k

theorem wake (k : Kernel) (waiter : Option TaskId) : Still k (wake k waiter) := by
  cases waiter with
  | none => exact refl k
  | some t => exact unblock k t

theorem sleepers (k : Kernel) (now : Nat) : Still k (taskWakeSleepers k now) := by
  refine ⟨rfl, ?_, ?_, ?_, ?_, rfl, rfl⟩
  · intro t
    simp only [taskWakeSleepers]
    split <;> rfl
  · intro t
    simp only [taskWakeSleepers]
    split <;> rfl
  · intro t
    simp only [taskWakeSleepers]
    split <;> rfl
  · intro t
    simp only [taskWakeSleepers]
    split
    · intro unused
      cases unused
    · exact id

theorem createPipe (k : Kernel) : Still k (pipeCreate k) := by
  unfold pipeCreate
  split
  · exact (updatePipe k _ _).answer _ _
  · exact (refl k).answer _ _

theorem readPipe (k : Kernel) (fd : Int) (buf : Bool) (count : Nat) :
    Still k (pipeRead k fd buf count) := by
  unfold pipeRead
  split
  · exact (refl k).answer _ _
  dsimp only
  split
  · exact (refl k).answer _ _
  split
  · exact (refl k).answer _ _
  split
  · exact ((updatePipe k _ _).trans (setState _ _ (by simp))).answer _ _
  · exact ((updatePipe k _ _).trans (wake _ _)).answer _ _

theorem writePipe (k : Kernel) (fd : Int) (data : Option (List UInt8)) :
    Still k (pipeWrite k fd data) := by
  unfold pipeWrite
  split
  · exact (refl k).answer _ _
  dsimp only
  split
  · exact (refl k).answer _ _
  split
  · split
    · exact ((updatePipe k _ _).trans (setState _ _ (by simp))).answer _ _
    · exact ((updatePipe k _ _).trans (wake _ _)).answer _ _
  · exact ((updatePipe k _ _).trans (wake _ _)).answer _ _

theorem closePipe (k : Kernel) (fd : Int) : Still k (pipeClose k fd) := by
  unfold pipeClose
  split
  · split
    · exact refl k
    · exact (updatePipe k _ _).trans (wake _ _)
  · split
    · exact refl k
    · exact (updatePipe k _ _).trans (wake _ _)

theorem deferRelease (k : Kernel) (t : TaskId) : Still k (taskDeferRelease k t) := by
  unfold taskDeferRelease
  dsimp only
  split
  · have parked : Still k ({ k with
        pendingTask := some t
        pendingStack := if (k.tasks t).guardPageAddr ≠ 0 then (k.tasks t).guardPageAddr
          else (k.tasks t).stackBase } : Kernel) :=
      ⟨rfl, fun _ => rfl, fun _ => rfl, fun _ => rfl, fun _ => id, rfl, rfl⟩
    exact (parked.trans (updateTask _ t rfl rfl rfl id)).trans (setState _ t (by simp))
  · exact setState k t (by simp)

theorem releasePending (k : Kernel) : Still k (taskReleasePending k) := by
  unfold taskReleasePending
  split
  · exact refl k
  obtain ⟨owner, released, invalid, same⟩ :=
    kfree_eq { k with pendingStack := 0, pendingTask := none } k.pendingStack
  have emptied : Still k ({ k with
      pendingStack := 0, pendingTask := none, stackOwner := owner
      released := released, invalidFrees := invalid } : Kernel) :=
    ⟨rfl, fun _ => rfl, fun _ => rfl, fun _ => rfl, fun _ => id, rfl, rfl⟩
  rw [same]
  dsimp only
  split
  · exact emptied.trans (setState _ _ (by simp))
  · exact emptied

/-- What is left of a switch before its caller goes on. -/
theorem releaseTo (k : Kernel) (control : Control) :
    Still { k with control } { taskReleasePending k with control } := by
  have released := releasePending k
  exact ⟨released.channels, released.links, released.frames, released.started, released.unused,
    released.current, rfl⟩

end Still

theorem switchTo_tasks (k : Kernel) (next t : TaskId) :
    ((switchTo k next).tasks t).ipcWaitNext = (k.tasks t).ipcWaitNext ∧
      ((switchTo k next).tasks t).frame = (k.tasks t).frame ∧
      ((k.tasks t).started = true → ((switchTo k next).tasks t).started = true) ∧
      (((switchTo k next).tasks t).state = .unused → (k.tasks t).state = .unused) := by
  simp only [switchTo, contextSwitch]
  rw [updateTask_tasks]
  split
  · next same =>
    rw [same]
    refine ⟨rfl, rfl, fun _ => rfl, ?_⟩
    intro unused
    cases unused
  · exact ⟨rfl, rfl, id, id⟩

theorem switchTo_enters (k : Kernel) (next : TaskId) : Enters k (switchTo k next) next := by
  simp only [Enters, switchTo, contextSwitch]
  rw [updateTask_tasks, if_pos rfl]
  refine ⟨rfl, rfl, rfl, ?_⟩
  intro started point frame
  dsimp only at frame
  simp only [frame, started, Bool.not_true, Bool.and_false]

theorem switchFrom_tasks (k : Kernel) (previous t : TaskId) (point : Point) :
    let left := k.updateTask previous fun task =>
      { task with
        state := if task.state = .running then .ready else task.state
        frame := .suspended point }
    (left.tasks t).ipcWaitNext = (k.tasks t).ipcWaitNext ∧
      (left.tasks t).frame = (if t = previous then .suspended point else (k.tasks t).frame) ∧
      (left.tasks t).started = (k.tasks t).started ∧
      ((left.tasks t).state = .unused → (k.tasks t).state = .unused) := by
  dsimp only
  rw [updateTask_tasks]
  split
  · next same =>
    rw [same]
    refine ⟨rfl, rfl, rfl, ?_⟩
    dsimp only
    split
    · nofun
    · exact id
  · exact ⟨rfl, rfl, rfl, id⟩

/-- What a switch does: it saves the stack of the task that it leaves and enters another. -/
structure Switches (point : Point) (before after : Kernel) : Prop where
  channels : after.channels = before.channels
  links : ∀ t, (after.tasks t).ipcWaitNext = (before.tasks t).ipcWaitNext
  saved : ∀ t, before.current = some t → (after.tasks t).frame = .suspended point
  frames : ∀ t, before.current ≠ some t → (after.tasks t).frame = (before.tasks t).frame
  started : ∀ t, (before.tasks t).started = true → (after.tasks t).started = true
  unused : ∀ t, (after.tasks t).state = .unused → (before.tasks t).state = .unused
  enters : ∃ t, before.current ≠ some t ∧ Enters before after t

theorem schedule_switches (switched : schedulerSchedule k point = some k') :
    Switches point k k' := by
  unfold schedulerSchedule at switched
  split at switched
  · cases switched
  next next _ =>
  split at switched
  · cases switched
  next other =>
  split at switched
  · next idle =>
    rw [Option.some.injEq] at switched
    subst switched
    have tasks := switchTo_tasks k next
    refine ⟨rfl, fun t => (tasks t).1, ?_, fun t _ => (tasks t).2.1, fun t => (tasks t).2.2.1,
      fun t => (tasks t).2.2.2, next, other, switchTo_enters k next⟩
    intro t current
    rw [idle] at current
    cases current
  next previous current =>
  rw [Option.some.injEq] at switched
  subst switched
  have left := fun t => switchFrom_tasks k previous t point
  dsimp only at left
  generalize leaving : k.updateTask previous _ = away at left ⊢
  have tasks := switchTo_tasks away next
  have channels : away.channels = k.channels := by
    rw [← leaving]
    rfl
  obtain ⟨entered, started, running, resumes⟩ := switchTo_enters away next
  refine ⟨channels, fun t => (tasks t).1.trans (left t).1, ?_, ?_, ?_, ?_, next, ?_, entered,
    started, running, ?_⟩
  · intro t same
    rw [current, Option.some.injEq] at same
    rw [(tasks t).2.1, (left t).2.1, if_pos same.symm]
  · intro t different
    rw [current, ne_eq, Option.some.injEq] at different
    rw [(tasks t).2.1, (left t).2.1, if_neg fun same => different same.symm]
  · intro t before
    exact (tasks t).2.2.1 ((left t).2.2.1.trans before)
  · intro t unused
    exact (left t).2.2.2 ((tasks t).2.2.2 unused)
  · exact other
  · intro before
    exact resumes ((left next).2.2.1.trans before)

theorem schedule_aside (switched : schedulerSchedule k point = some k')
    (returns : ∀ c generation maxSize closes,
      point ≠ .receiving c generation maxSize closes) : Aside k k' := by
  have switches := schedule_switches switched
  refine ⟨switches.channels, switches.links, ?_, fun t _ => switches.started t, switches.unused,
    .inr ?_⟩
  · intro t
    by_cases current : k.current = some t
    · right
      refine ⟨.inl current, ?_⟩
      intro c generation maxSize closes waits
      rw [switches.saved t current] at waits
      exact returns c generation maxSize closes (Frame.suspended.inj waits)
    · exact .inl (switches.frames t current)
  · obtain ⟨t, _, enters⟩ := switches.enters
    exact ⟨t, enters⟩

/-- A call that yields and may return without a switch. -/
theorem yield_aside (still : Still k k') (returns : ∀ c generation maxSize closes,
    point ≠ .receiving c generation maxSize closes) :
    Aside k ((schedulerYield k' point).getD k') := by
  cases switched : schedulerYield k' point with
  | none => exact still.aside
  | some k'' => exact still.trans_aside (schedule_aside (schedule_of_yield switched) returns)

theorem sleep_aside (k : Kernel) (ms : Nat) : Aside k (taskSleepMs k ms) := by
  unfold taskSleepMs
  split
  · exact (Still.refl k).aside
  split
  · exact (Still.refl k).aside
  next t _ =>
  exact yield_aside (.updateTask k t rfl rfl rfl (by simp)) (by simp)

theorem timer_aside (k : Kernel) : Aside k (timerHandler k) := by
  unfold timerHandler
  generalize ticked : ({ k with timerTicks := _ } : Kernel) = counted
  have tick : Still k counted := by
    rw [← ticked]
    exact ⟨rfl, fun _ => rfl, fun _ => rfl, fun _ => rfl, fun _ => id, rfl, rfl⟩
  have still := tick.trans (.sleepers counted (timerGetMs counted))
  dsimp only
  generalize taskWakeSleepers counted _ = woken at still ⊢
  split
  · exact still.aside
  next c current =>
  split
  · generalize full : woken.updateTask c _ = k'
    have reset : Still k k' := by
      rw [← full]
      exact still.trans (.updateTask woken c rfl rfl rfl id)
    cases switched : schedulerSchedule k'
      (if k'.control = .halted then .exiting else .returning) with
    | none => exact reset.aside
    | some k'' =>
        rw [Option.getD_some]
        apply reset.trans_aside (schedule_aside switched _)
        intro c generation maxSize closes
        split <;> simp
  · exact (still.trans (.updateTask woken c rfl rfl rfl id)).aside

theorem exit_aside (k : Kernel) (status : Nat) : Aside k (taskExitWithStatus k status) := by
  unfold taskExitWithStatus
  split
  · exact ⟨rfl, fun _ => rfl, fun _ => .inl rfl, fun _ _ => id, fun _ => id, .inl ⟨rfl, .inr rfl⟩⟩
  next t _ =>
  dsimp only
  generalize noted : k.updateTask t _ = k₁
  have still : Still k k₁ := by
    rw [← noted]
    exact .updateTask k t rfl rfl rfl id
  have parked := still.trans (.deferRelease k₁ t)
  generalize taskDeferRelease k₁ t = k₂ at parked ⊢
  have ended : Still k { k₂ with exited := k₂.exited ++ [t] } :=
    parked.trans ⟨rfl, fun _ => rfl, fun _ => rfl, fun _ => rfl, fun _ => id, rfl, rfl⟩
  cases switched : schedulerYield { k₂ with exited := k₂.exited ++ [t] } .exiting with
  | none =>
      exact ⟨ended.channels, ended.links, fun t => .inl (ended.frames t),
        fun t _ => (ended.started t).trans, ended.unused, .inl ⟨ended.current, .inr rfl⟩⟩
  | some k' => exact ended.trans_aside (schedule_aside (schedule_of_yield switched) (by simp))

theorem start_aside (k : Kernel) : Aside k (schedulerStart k) := by
  unfold schedulerStart
  split
  · exact (Still.refl k).aside
  next next _ _ =>
  have tasks := switchTo_tasks k next
  exact ⟨rfl, fun t => (tasks t).1, fun t => .inl (tasks t).2.1, fun t _ => (tasks t).2.2.1,
    fun t => (tasks t).2.2.2, .inr ⟨next, switchTo_enters k next⟩⟩

theorem spawn_aside (k : Kernel) (isUser : Bool) (stack : Option Nat) (addressSpace : Bool) :
    Aside k (spawn k isUser stack addressSpace) := by
  rcases spawn_cases k isUser stack addressSpace with same | ⟨t, spawned⟩
  · rw [same]
    exact (Still.refl k).aside
  obtain ⟨_, _, _, _, _, _, same⟩ := spawned.same
  refine ⟨by rw [same], ?_, ?_, ?_, ?_, .inl (by rw [same]; exact ⟨rfl, .inl rfl⟩)⟩
  · intro u
    by_cases here : u = t
    · rw [here, spawned.link]
    · rw [spawned.others u here]
  · intro u
    by_cases here : u = t
    · rw [here]
      rcases spawned.outcome with ⟨-, frame, -⟩ | ⟨-, frame, -⟩
      · exact .inl frame
      · exact .inr ⟨.inr spawned.unused, fun _ _ _ _ => frame _⟩
    · rw [spawned.others u here]
      exact .inl rfl
  · intro u used started
    rwa [spawned.others u fun here => used (here ▸ spawned.unused)]
  · intro u
    by_cases here : u = t
    · exact fun _ => here ▸ spawned.unused
    · rw [spawned.others u here]
      exact id

/-! ## The ring -/

/-- The generation of a slot after a number of closes. -/
def generationAfter (closes : Nat) : Nat :=
  closes % (2 ^ 32 - 1) + 1

theorem generationAfter_succ (closes : Nat) :
    (if (generationAfter closes + 1) % 2 ^ 32 = 0 then 1
      else (generationAfter closes + 1) % 2 ^ 32) = generationAfter (closes + 1) := by
  have here : generationAfter closes = closes % (2 ^ 32 - 1) + 1 := rfl
  have next : generationAfter (closes + 1) = (closes + 1) % (2 ^ 32 - 1) + 1 := rfl
  split
  · omega
  · omega

/-- The ring agrees with what has been sent and received. -/
structure Channel.Valid (channel : Channel) : Prop where
  generation : channel.generation = generationAfter channel.closes
  bounded : channel.count ≤ ipcMaxMessages
  tail_lt : channel.tail < ipcMaxMessages
  head_eq : channel.head = (channel.tail + channel.count) % ipcMaxMessages
  received : channel.inUse = true → channel.received.map Prod.snd =
    List.zipWith (fun bytes reply => bytes.take (min ipcMaxMsgSize reply.1))
      (channel.sent.take channel.received.length) channel.received
  queued : channel.inUse = true →
    (channel.sent.drop channel.received.length).map (·.take ipcMaxMsgSize) =
      (Ring.contents channel.messages ipcMaxMessages channel.tail channel.count).map Message.data
  inOrder : channel.inUse = true → channel.received.length ≤ channel.sent.length

namespace Channel.Valid

variable {channel : Channel}

theorem setWaitHead (valid : channel.Valid) (waitHead : Option TaskId) :
    Valid { channel with waitHead } :=
  ⟨valid.generation, valid.bounded, valid.tail_lt, valid.head_eq, valid.received, valid.queued,
    valid.inOrder⟩

theorem create (valid : channel.Valid) : Valid { channel with
    inUse := true, head := 0, tail := 0, count := 0, waitHead := none
    sent := [], received := [] } := by
  constructor <;> simp [valid.generation]

theorem send (valid : channel.Valid) (used : channel.inUse = true)
    (room : channel.count < ipcMaxMessages) (bytes : List UInt8) (senderPid : Nat) :
    Valid { channel with
      messages := Function.update channel.messages channel.head
        { senderPid, data := bytes.take ipcMaxMsgSize }
      head := (channel.head + 1) % ipcMaxMessages
      count := channel.count + 1
      sent := channel.sent ++ [bytes] } := by
  have inOrder := valid.inOrder used
  constructor
  · exact valid.generation
  · exact room
  · exact valid.tail_lt
  · rw [valid.head_eq, Nat.mod_add_mod, Nat.add_assoc]
  · intro _
    dsimp only
    rw [List.take_append_of_le_length inOrder]
    exact valid.received used
  · intro _
    dsimp only
    rw [valid.head_eq, Ring.contents_push room, List.drop_append_of_le_length inOrder,
      List.map_append, List.map_append, valid.queued used]
    rfl
  · intro _
    simp only [List.length_append, List.length_cons, List.length_nil]
    omega

theorem take (valid : channel.Valid) (used : channel.inUse = true) (filled : channel.count ≠ 0)
    (maxSize : Nat) : Valid { channel with
      tail := (channel.tail + 1) % ipcMaxMessages
      count := channel.count - 1
      received := channel.received ++
        [(maxSize, (channel.messages channel.tail).data.take maxSize)] } := by
  have positive : 0 < channel.count := Nat.pos_of_ne_zero filled
  have inOrder := valid.inOrder used
  have bounded := valid.bounded
  have queued := valid.queued used
  have lengths := congrArg List.length queued
  simp only [List.length_map, List.length_drop, Ring.length_contents] at lengths
  have more : channel.received.length < channel.sent.length := by omega
  -- the first message of the ring is the first one not yet received
  rw [Ring.contents_pop positive, Nat.mod_eq_of_lt valid.tail_lt, List.map_cons,
    List.drop_eq_getElem_cons more, List.map_cons, List.cons.injEq] at queued
  obtain ⟨first, rest⟩ := queued
  constructor
  · exact valid.generation
  · dsimp only
    omega
  · exact Nat.mod_lt _ (by simp)
  · dsimp only
    rw [valid.head_eq, Nat.mod_add_mod]
    congr 1
    omega
  · intro _
    dsimp only
    rw [List.map_append, List.length_append, List.length_singleton,
      List.take_succ_eq_append_getElem more, List.zipWith_append (by simp [inOrder]),
      ← valid.received used]
    simp only [List.map_cons, List.map_nil, List.zipWith_cons_cons, List.zipWith_nil_right]
    rw [← first, List.take_take, Nat.min_comm]
  · intro _
    simp only [List.length_append, List.length_singleton]
    exact rest
  · intro _
    simp only [List.length_append, List.length_singleton]
    omega

theorem close (valid : channel.Valid) : Valid { channel with
    generation := if (channel.generation + 1) % 2 ^ 32 = 0 then 1
      else (channel.generation + 1) % 2 ^ 32
    inUse := false, head := 0, tail := 0, count := 0
    waitHead := none, closes := channel.closes + 1 } := by
  constructor
  · dsimp only
    rw [valid.generation]
    exact generationAfter_succ channel.closes
  all_goals simp

end Channel.Valid

/-! ## Wait lists

The wait lists do not matter here, only that nothing else changes with them. -/

/-- Only links, wait lists and states have changed. -/
structure Relinks (before after : Kernel) : Prop where
  channels : ∀ c, ∃ waitHead, after.channels c = { before.channels c with waitHead }
  frames : ∀ t, (after.tasks t).frame = (before.tasks t).frame
  started : ∀ t, (after.tasks t).started = (before.tasks t).started
  unused : ∀ t, (after.tasks t).state = .unused → (before.tasks t).state = .unused
  control : after.control = before.control
  current : after.current = before.current

namespace Relinks

variable {k'' : Kernel}

theorem refl (k : Kernel) : Relinks k k :=
  ⟨fun _ => ⟨_, rfl⟩, fun _ => rfl, fun _ => rfl, fun _ => id, rfl, rfl⟩

theorem trans (first : Relinks k k') (second : Relinks k' k'') : Relinks k k'' where
  channels c := by
    obtain ⟨waitHead, same⟩ := first.channels c
    obtain ⟨waitHead', same'⟩ := second.channels c
    rw [same] at same'
    exact ⟨waitHead', same'⟩
  frames t := (second.frames t).trans (first.frames t)
  started t := (second.started t).trans (first.started t)
  unused t unused := first.unused t (second.unused t unused)
  control := second.control.trans first.control
  current := second.current.trans first.current

theorem of_still {k k' : Kernel} (still : Still k k') : Relinks k k' :=
  ⟨fun c => ⟨(k.channels c).waitHead, congrFun still.channels c⟩, still.frames, still.started,
    still.unused, still.control, still.current⟩

theorem setLink (k : Kernel) (t : TaskId) (ipcWaitNext : Option TaskId) :
    Relinks k (k.updateTask t ({ · with ipcWaitNext })) := by
  refine ⟨fun _ => ⟨_, rfl⟩, ?_, ?_, ?_, rfl, rfl⟩
  · intro u
    rw [updateTask_tasks]
    split
    · next same => rw [same]
    · rfl
  · intro u
    rw [updateTask_tasks]
    split
    · next same => rw [same]
    · rfl
  · intro u
    rw [updateTask_tasks]
    split
    · next same =>
      rw [same]
      exact id
    · exact id

theorem setWaitHead (k : Kernel) (c : ChannelId) (waitHead : Option TaskId) :
    Relinks k (k.updateChannel c ({ · with waitHead })) := by
  refine ⟨?_, fun _ => rfl, fun _ => rfl, fun _ => id, rfl, rfl⟩
  intro d
  simp only [Kernel.updateChannel]
  by_cases same : d = c
  · subst same
    exact ⟨waitHead, Function.update_self ..⟩
  · exact ⟨(k.channels d).waitHead, Function.update_of_ne same ..⟩

theorem removeWaiter (k : Kernel) (c : ChannelId) (target : TaskId) :
    Relinks k (ipcRemoveWaiter k c target) :=
  ipcRemoveWaiter_keeps refl trans setWaitHead setLink k c target

theorem wakeOne (k : Kernel) (c : ChannelId) : Relinks k (ipcWakeOne k c) := by
  unfold ipcWakeOne
  split
  · exact refl k
  · exact ((setWaitHead k c _).trans (setLink _ _ _)).trans (of_still (.unblock _ _))

theorem wakeAll (k : Kernel) (fuel : Nat) (waiter : Option TaskId) :
    Relinks k (ipcWakeAll k fuel waiter) := by
  induction fuel generalizing k waiter with
  | zero => exact refl k
  | succ fuel ih =>
      cases waiter with
      | none => exact refl k
      | some t => exact ((setLink k t _).trans (of_still (.unblock _ t))).trans (ih _ _)

theorem wait (k : Kernel) (t : TaskId) (c : ChannelId) : Relinks k (ipcWait k t c) := by
  unfold ipcWait schedulerBlockTask
  apply Relinks.trans _ (of_still (.setState _ t (by simp)))
  apply Relinks.trans _ (setWaitHead _ c (some t))
  exact (removeWaiter k c t).trans (setLink _ t _)

theorem giveUp (k : Kernel) (t : TaskId) (c : ChannelId) :
    Relinks k ((ipcRemoveWaiter k c t).setState t .running) :=
  (removeWaiter k c t).trans (of_still (.setState _ t (by simp)))

end Relinks

/-! ## Every run -/

/-- Every ring agrees with its history, and a receiver that waits has seen the generation
that the slot had when it began to. -/
structure ChannelsValid (k : Kernel) : Prop where
  valid : ∀ c, (k.channels c).Valid
  seen : ∀ t c generation maxSize closes,
    (k.tasks t).frame.Receives c generation maxSize closes →
      generation = generationAfter closes ∧ closes ≤ (k.channels c).closes

namespace ChannelsValid

theorem aside (good : ChannelsValid k) (aside : Aside k k') : ChannelsValid k' := by
  constructor
  · rw [aside.channels]
    exact good.valid
  · intro t c generation maxSize closes waits
    rw [aside.channels]
    rcases aside.frames t with same | ⟨_, other⟩
    · rw [same] at waits
      exact good.seen t c generation maxSize closes waits
    · exact absurd waits (other c generation maxSize closes)

theorem relinks (good : ChannelsValid k) (relinks : Relinks k k') : ChannelsValid k' := by
  constructor
  · intro c
    obtain ⟨waitHead, same⟩ := relinks.channels c
    rw [same]
    exact (good.valid c).setWaitHead waitHead
  · intro t c generation maxSize closes waits
    obtain ⟨waitHead, same⟩ := relinks.channels c
    rw [relinks.frames] at waits
    rw [same]
    exact good.seen t c generation maxSize closes waits

theorem answer (good : ChannelsValid k) (value : Int) (data : List UInt8) :
    ChannelsValid (k.answer value data) :=
  ⟨good.valid, good.seen⟩

theorem updateChannel (good : ChannelsValid k) (c : ChannelId) {change : Channel → Channel}
    (valid : (change (k.channels c)).Valid)
    (closes : (k.channels c).closes ≤ (change (k.channels c)).closes) :
    ChannelsValid (k.updateChannel c change) := by
  constructor
  · intro d
    by_cases same : d = c
    · subst same
      simpa [Kernel.updateChannel] using valid
    · simpa [Kernel.updateChannel, same] using good.valid d
  · intro t d generation maxSize seen waits
    obtain ⟨generation_eq, before⟩ := good.seen t d generation maxSize seen waits
    refine ⟨generation_eq, ?_⟩
    by_cases same : d = c
    · subst same
      simpa [Kernel.updateChannel] using before.trans closes
    · simpa [Kernel.updateChannel, same] using before

theorem create (good : ChannelsValid k) : ChannelsValid (ipcCreate k) := by
  unfold ipcCreate
  split
  · next c _ => exact (good.updateChannel c (good.valid c).create le_rfl).answer _ _
  · exact good.answer _ _

theorem send (good : ChannelsValid k) (channel : Int) (data : Option (List UInt8)) :
    ChannelsValid (ipcSend k channel data) := by
  unfold ipcSend
  split
  · exact good.answer _ _
  next c _ =>
  split
  · exact good.answer _ _
  next used =>
  split
  · exact good.answer _ _
  next bytes =>
  split
  · exact good.answer _ _
  next room =>
  have used : (k.channels c).inUse = true := by simpa using used
  have stored := (good.valid c).send used (Nat.lt_of_not_le room) bytes
  exact ((good.updateChannel c (stored _) le_rfl).relinks (.wakeOne _ c)).answer _ _

theorem take (good : ChannelsValid k) {c : ChannelId} (used : (k.channels c).inUse = true)
    (filled : (k.channels c).count ≠ 0) (maxSize : Nat) :
    ChannelsValid (ipcTake k c maxSize) :=
  (good.updateChannel c ((good.valid c).take used filled maxSize) le_rfl).answer _ _

/-- A receiver that is switched away from remembers the generation of its channel. -/
theorem receive (good : ChannelsValid k) {c : ChannelId} (used : (k.channels c).inUse = true)
    (maxSize : Nat) : ChannelsValid (ipcReceive k c maxSize) := by
  unfold ipcReceive
  split
  · next filled => exact good.take used filled maxSize
  split
  · exact good.answer _ _
  next t _ =>
  have waiting := good.relinks (.wait k t c)
  obtain ⟨waitHead, kept⟩ := (Relinks.wait k t c).channels c
  dsimp only
  split
  · next switched =>
    have switches := schedule_switches (schedule_of_yield switched)
    constructor
    · rw [switches.channels]
      exact waiting.valid
    · intro u d generation size closes waits
      rw [switches.channels]
      by_cases left : (ipcWait k t c).current = some u
      · rw [switches.saved u left] at waits
        cases waits
        rw [kept]
        exact ⟨(good.valid c).generation, le_rfl⟩
      · rw [switches.frames u left] at waits
        exact waiting.seen u d generation size closes waits
  · exact (waiting.relinks (.giveUp _ t c)).answer _ _

theorem recv (good : ChannelsValid k) (channel : Int) (buf : Bool) (maxSize : Nat) :
    ChannelsValid (ipcRecv k channel buf maxSize) := by
  unfold ipcRecv
  split
  · exact good.answer _ _
  split
  · exact good.answer _ _
  next used =>
  split
  · exact good.answer _ _
  split
  · exact good.answer _ _
  · exact good.receive (by simpa using used) maxSize

theorem close (good : ChannelsValid k) (channel : Int) : ChannelsValid (ipcClose k channel) := by
  unfold ipcClose
  split
  · exact good
  next c _ =>
  split
  · exact good
  dsimp only
  have woken := Relinks.wakeAll (k.updateChannel c ({ · with
    generation := if ((k.channels c).generation + 1) % 2 ^ 32 = 0 then 1
      else ((k.channels c).generation + 1) % 2 ^ 32
    waitHead := none })) taskMaxTasks (k.channels c).waitHead
  generalize ipcWakeAll _ taskMaxTasks _ = k' at woken ⊢
  obtain ⟨waitHead, closed⟩ := woken.channels c
  rw [show (k.updateChannel c _).channels c = _ from Function.update_self ..] at closed
  have others : ∀ d, d ≠ c → ∃ waitHead, k'.channels d = { k.channels d with waitHead } := by
    intro d other
    obtain ⟨waitHead, same⟩ := woken.channels d
    rw [show (k.updateChannel c _).channels d = _ from Function.update_of_ne other ..] at same
    exact ⟨waitHead, same⟩
  constructor
  · intro d
    by_cases same : d = c
    · subst same
      rw [show (k'.updateChannel d _).channels d = _ from Function.update_self .., closed]
      exact (good.valid d).close.setWaitHead waitHead
    · obtain ⟨waitHead', kept⟩ := others d same
      rw [show (k'.updateChannel c _).channels d = _ from Function.update_of_ne same .., kept]
      exact (good.valid d).setWaitHead waitHead'
  · intro t d generation maxSize closes waits
    rw [show ((k'.updateChannel c _).tasks t).frame = _ from woken.frames t] at waits
    obtain ⟨seen, before⟩ := good.seen t d generation maxSize closes waits
    refine ⟨seen, ?_⟩
    by_cases same : d = c
    · subst same
      rw [show (k'.updateChannel d _).channels d = _ from Function.update_self .., closed]
      exact before.trans (Nat.le_succ _)
    · obtain ⟨waitHead', kept⟩ := others d same
      rw [show (k'.updateChannel c _).channels d = _ from Function.update_of_ne same .., kept]
      exact before

/-- The wait loop goes on only with the generation that it began with. -/
theorem resumed (good : ChannelsValid k) : ChannelsValid (resume k) := by
  unfold resume
  split
  · exact good
  next t _ =>
  have released : ∀ control, ChannelsValid { taskReleasePending k with control } := by
    intro control
    have moved : ChannelsValid { k with control } := ⟨good.valid, good.seen⟩
    exact moved.aside (Still.releaseTo k control).aside
  split
  · exact released .task
  · next c generation maxSize _ _ =>
    have released := released .task
    generalize ({ taskReleasePending k with control := .task } : Kernel) = k' at released ⊢
    unfold ipcResume
    split
    · exact (released.relinks (.giveUp k' t c)).answer _ _
    split
    · exact released.answer _ _
    · next checked =>
      rw [not_or] at checked
      exact released.receive (by simpa using checked.1) maxSize
  · exact released .halted
  · exact good
  · exact good

end ChannelsValid

theorem step_channels (good : ChannelsValid k) {event : Event} (step : Step k event k') :
    ChannelsValid k' := by
  obtain ⟨_, rfl⟩ := step
  cases event with
  | spawn isUser stack addressSpace => exact good.aside (spawn_aside k isUser stack addressSpace)
  | schedulerStart => exact good.aside (start_aside k)
  | schedulerYield => exact good.aside (yield_aside (.refl k) (by simp))
  | timerHandler => exact good.aside (timer_aside k)
  | taskSleepMs ms => exact good.aside (sleep_aside k ms)
  | taskWakeSleepers now => exact good.aside (Still.sleepers k now).aside
  | schedulerBlockTask t => exact good.aside (Still.setState k t (by simp)).aside
  | schedulerUnblockTask t => exact good.aside (Still.unblock k t).aside
  | ipcCreate => exact good.create
  | ipcSend channel data => exact good.send channel data
  | ipcRecv channel buf maxSize => exact good.recv channel buf maxSize
  | ipcClose channel => exact good.close channel
  | pipeCreate => exact good.aside (Still.createPipe k).aside
  | pipeRead fd buf count => exact good.aside (Still.readPipe k fd buf count).aside
  | pipeWrite fd data => exact good.aside (Still.writePipe k fd data).aside
  | pipeClose fd => exact good.aside (Still.closePipe k fd).aside
  | taskExitWithStatus status => exact good.aside (exit_aside k status)
  | resume => exact good.resumed

theorem bootKernel_channels (timerFrequencyHz : Nat) :
    ChannelsValid (bootKernel timerFrequencyHz) := by
  constructor
  · intro c
    constructor <;> simp [bootKernel, generationAfter]
  · intro t c generation maxSize closes waits
    simp [bootKernel, Frame.Receives] at waits

theorem run_channels {timerFrequencyHz : Nat} {events : List Event}
    (run : Run Step (bootKernel timerFrequencyHz) events k) : ChannelsValid k := by
  have keeps : ∀ k (event : Event) k', ChannelsValid k → True → Step k event k' →
      ChannelsValid k' := by
    intro k event k' good _ step
    exact step_channels good step
  exact run.invariant keeps (bootKernel_channels timerFrequencyHz) fun _ _ => trivial

@[simp] theorem channelIndex_coe (c : ChannelId) : channelIndex (c : Nat) = some c := by
  simp [channelIndex]

/-- The message that a step adds to those sent to a channel: what a call of `ipc_send` that
answers 0 was given. -/
def accepted (after : Kernel) (c : ChannelId) : Event → Option (List UInt8)
  | .ipcSend channel data =>
      if channelIndex channel = some c ∧ after.reply.value = 0 then data else none
  | _ => none

/-- The size for which a step runs a call of `ipc_recv` on a channel, from its start or from
where it was waiting. -/
def asked (before : Kernel) (c : ChannelId) : Event → Option Nat
  | .ipcRecv channel _ maxSize =>
      if channelIndex channel = some c ∧ maxSize ≠ 0 then some maxSize else none
  | .resume =>
      match before.current.map fun t => (before.tasks t).frame with
      | some (.suspended (.receiving d _ maxSize _)) => if d = c then some maxSize else none
      | _ => none
  | _ => none

/-- The message that such a call hands to its task, unless the task has been switched away
from or the call has failed. -/
def returned (before after : Kernel) (size : Option Nat) : Option (Nat × List UInt8) :=
  if after.current = before.current ∧ after.reply.value ≠ -1 then
    size.map fun maxSize => (maxSize, after.reply.data)
  else none

@[simp] theorem returned_none (before after : Kernel) : returned before after none = none := by
  simp [returned]

/-- The histories of a channel grow by what is accepted and by what is returned. -/
structure Recorded (before after : Kernel) (c : ChannelId) (bytes : Option (List UInt8))
    (size : Option Nat) : Prop where
  sent : (after.channels c).sent = (before.channels c).sent ++ bytes.toList
  received : (after.channels c).received =
    (before.channels c).received ++ (returned before after size).toList
  value : ∀ message ∈ returned before after size, after.reply.value = message.2.length

namespace Recorded

variable {c d : ChannelId} {size : Option Nat}

/-- A call that hands out nothing. -/
theorem nothing (sent : (k'.channels c).sent = (k.channels c).sent)
    (received : (k'.channels c).received = (k.channels c).received)
    (none_returned : returned k k' size = none) : Recorded k k' c none size := by
  refine ⟨by simp [sent], by simp [received, none_returned], ?_⟩
  rw [none_returned]
  simp

theorem quiet (channels : ∃ waitHead, k'.channels c = { k.channels c with waitHead }) :
    Recorded k k' c none none := by
  obtain ⟨waitHead, same⟩ := channels
  apply nothing
  · rw [same]
  · rw [same]
  · exact returned_none ..

theorem failed (channels : ∃ waitHead, k'.channels c = { k.channels c with waitHead })
    (value : k'.reply.value = -1) : Recorded k k' c none size := by
  obtain ⟨waitHead, same⟩ := channels
  apply nothing
  · rw [same]
  · rw [same]
  · simp [returned, value]

/-- What leaves the channels alone beforehand does not matter. -/
theorem after {k'' : Kernel} (channels : k'.channels = k.channels)
    (current : k'.current = k.current) (recorded : Recorded k' k'' c none size) :
    Recorded k k'' c none size := by
  obtain ⟨sent, received, value⟩ := recorded
  simp only [returned, current] at received value
  rw [channels] at sent received
  exact ⟨sent, received, value⟩

theorem take (k : Kernel) (c : ChannelId) (maxSize : Nat) :
    Recorded k (ipcTake k c maxSize) c none (some maxSize) := by
  have channel : (ipcTake k c maxSize).channels c = _ := Function.update_self ..
  have message : returned k (ipcTake k c maxSize) (some maxSize) =
      some (maxSize, ((k.channels c).messages (k.channels c).tail).data.take maxSize) := by
    have nonneg : ((((k.channels c).messages (k.channels c).tail).data.take maxSize).length : Int)
        ≠ -1 := by omega
    exact if_pos ⟨rfl, nonneg⟩
  refine ⟨by simp [channel], by simp [channel, message], ?_⟩
  rw [message]
  rintro _ ⟨⟩
  rfl

theorem receive (k : Kernel) (c : ChannelId) (maxSize : Nat) :
    Recorded k (ipcReceive k c maxSize) c none (some maxSize) := by
  unfold ipcReceive
  split
  · exact take k c maxSize
  split
  · exact failed ⟨_, rfl⟩ rfl
  next t _ =>
  have waiting := Relinks.wait k t c
  dsimp only
  split
  · next switched =>
    -- the receiver is switched away from, so that the call does not return
    have switches := schedule_switches (schedule_of_yield switched)
    obtain ⟨waitHead, same⟩ := waiting.channels c
    obtain ⟨next, other, entered, -⟩ := switches.enters
    rw [waiting.current] at other
    rw [← switches.channels] at same
    apply nothing
    · rw [same]
    · rw [same]
    · rw [returned, entered, if_neg (fun stays => other stays.1.symm)]
  · exact failed ((waiting.trans (.giveUp _ t c)).channels c) rfl

theorem receive_other (k : Kernel) (other : d ≠ c) (maxSize : Nat) :
    Recorded k (ipcReceive k c maxSize) d none none := by
  apply quiet
  unfold ipcReceive
  split
  · exact ⟨_, Function.update_of_ne other ..⟩
  split
  · exact ⟨_, rfl⟩
  next t _ =>
  have waiting := Relinks.wait k t c
  dsimp only
  split
  · next switched =>
    rw [(schedule_switches (schedule_of_yield switched)).channels]
    exact waiting.channels d
  · exact (waiting.trans (.giveUp _ t c)).channels d

theorem create (used : (k.channels c).inUse = true) :
    Recorded k (ipcCreate k) c none none := by
  apply quiet
  unfold ipcCreate
  split
  · next d found =>
    have other : c ≠ d := by
      rintro rfl
      simpa [used] using List.find?_some found
    exact ⟨_, Function.update_of_ne other ..⟩
  · exact ⟨_, rfl⟩

theorem send (k : Kernel) (c : ChannelId) (channel : Int) (data : Option (List UInt8)) :
    Recorded k (ipcSend k channel data) c
      (accepted (ipcSend k channel data) c (.ipcSend channel data)) none := by
  have refused : accepted (k.answer (-1)) c (.ipcSend channel data) = none :=
    if_neg (by rintro ⟨-, ⟨⟩⟩)
  unfold ipcSend
  split
  · rw [refused]
    exact quiet ⟨_, rfl⟩
  next d index =>
  split
  · rw [refused]
    exact quiet ⟨_, rfl⟩
  split
  · rw [refused]
    exact quiet ⟨_, rfl⟩
  next bytes =>
  split
  · rw [refused]
    exact quiet ⟨_, rfl⟩
  dsimp only
  generalize stored : k.updateChannel d _ = k'
  obtain ⟨waitHead, woken⟩ := (Relinks.wakeOne k' d).channels c
  have replied : ((ipcWakeOne k' d).answer 0).channels c = (ipcWakeOne k' d).channels c := rfl
  by_cases same : c = d
  · subst same
    rw [accepted, if_pos ⟨index, rfl⟩]
    refine ⟨?_, ?_, by simp⟩
    · rw [replied, woken, ← stored]
      simp [Kernel.updateChannel]
    · rw [replied, woken, ← stored, returned_none]
      simp [Kernel.updateChannel]
  · have channel : k'.channels c = k.channels c := by
      rw [← stored]
      exact Function.update_of_ne same ..
    rw [accepted, if_neg (fun here => same (Option.some.inj (here.1.symm.trans index)))]
    apply quiet
    rw [replied, woken, channel]
    exact ⟨_, rfl⟩

theorem recv (k : Kernel) (c : ChannelId) (channel : Int) (buf : Bool) (maxSize : Nat) :
    Recorded k (ipcRecv k channel buf maxSize) c none
      (asked k c (.ipcRecv channel buf maxSize)) := by
  unfold ipcRecv
  split
  · exact failed ⟨_, rfl⟩ rfl
  next d index =>
  split
  · exact failed ⟨_, rfl⟩ rfl
  split
  · next zero =>
    rw [asked, if_neg (fun here => here.2 zero)]
    exact quiet ⟨_, rfl⟩
  next positive =>
  split
  · exact failed ⟨_, rfl⟩ rfl
  by_cases same : c = d
  · subst same
    rw [asked, if_pos ⟨index, positive⟩]
    exact receive k c maxSize
  · rw [asked, if_neg (fun here => same (Option.some.inj (here.1.symm.trans index)))]
    exact receive_other k same maxSize

theorem close (k : Kernel) (c : ChannelId) (channel : Int) :
    Recorded k (ipcClose k channel) c none none := by
  unfold ipcClose
  split
  · exact quiet ⟨_, rfl⟩
  next d _ =>
  split
  · exact quiet ⟨_, rfl⟩
  dsimp only
  generalize marked : k.updateChannel d _ = k'
  obtain ⟨waitHead, woken⟩ := (Relinks.wakeAll k' taskMaxTasks (k.channels d).waitHead).channels c
  generalize ipcWakeAll k' taskMaxTasks _ = k'' at woken ⊢
  by_cases same : c = d
  · subst same
    apply nothing
    · simp [Kernel.updateChannel, woken, ← marked]
    · simp [Kernel.updateChannel, woken, ← marked]
    · exact returned_none ..
  · apply quiet
    simp [Kernel.updateChannel, woken, ← marked, same]

theorem resume (k : Kernel) (c : ChannelId) :
    Recorded k (resume k) c none (asked k c .resume) := by
  have released (control : Control) : Still { k with control } _ := .releaseTo k control
  have silent {control : Control} {size : Option Nat} (none_asked : size = none) :
      Recorded k { taskReleasePending k with control } c none size := by
    rw [none_asked]
    exact quiet ⟨_, congrFun (released control).channels c⟩
  unfold Sched.resume
  split
  · next idle => simpa [asked, idle] using quiet ⟨_, rfl⟩
  next t current =>
  split
  · next frame => exact silent (by simp [asked, current, frame])
  · next d generation maxSize closes frame =>
    have still := released .task
    generalize ({ taskReleasePending k with control := .task } : Kernel) = k' at still ⊢
    have channels : k'.channels = k.channels := still.channels
    have current' : k'.current = k.current := still.current
    apply after channels current'
    unfold ipcResume
    split
    · exact failed ((Relinks.giveUp k' t d).channels c) rfl
    split
    · exact failed ⟨_, rfl⟩ rfl
    by_cases same : c = d
    · subst same
      simpa [asked, current, frame] using receive k' c maxSize
    · simpa [asked, current, frame, Ne.symm same] using receive_other k' same maxSize
  · next frame => exact silent (by simp [asked, current, frame])
  all_goals next frame => simpa [asked, current, frame] using quiet ⟨_, rfl⟩

/-- What a step adds to the histories of a channel that is in use. -/
theorem step (used : (k.channels c).inUse = true) {event : Event} (step : Step k event k') :
    Recorded k k' c (accepted k' c event) (asked k c event) := by
  obtain ⟨_, rfl⟩ := step
  have still {k' : Kernel} (aside : Aside k k') : Recorded k k' c none none :=
    quiet ⟨_, congrFun aside.channels c⟩
  cases event with
  | spawn isUser stack addressSpace => exact still (spawn_aside k isUser stack addressSpace)
  | schedulerStart => exact still (start_aside k)
  | schedulerYield => exact still (yield_aside (.refl k) (by simp))
  | timerHandler => exact still (timer_aside k)
  | taskSleepMs ms => exact still (sleep_aside k ms)
  | taskWakeSleepers now => exact still (Still.sleepers k now).aside
  | schedulerBlockTask t => exact still (Still.setState k t (by simp)).aside
  | schedulerUnblockTask t => exact still (Still.unblock k t).aside
  | ipcCreate => exact create used
  | ipcSend channel data => exact send k c channel data
  | ipcRecv channel buf maxSize => exact recv k c channel buf maxSize
  | ipcClose channel => exact close k c channel
  | pipeCreate => exact still (Still.createPipe k).aside
  | pipeRead fd buf count => exact still (Still.readPipe k fd buf count).aside
  | pipeWrite fd data => exact still (Still.writePipe k fd data).aside
  | pipeClose fd => exact still (Still.closePipe k fd).aside
  | taskExitWithStatus status => exact still (exit_aside k status)
  | resume => exact resume k c

end Recorded

/-- Between its creation and its close a channel hands out what was sent to it: the messages
received are the first ones sent, in order and each cut to what was asked for, the others are
in the ring, and a send to a full ring changes nothing.  The messages sent are those for which
`ipc_send` answered 0 since `ipc_create` handed out the channel, the messages received those
that calls of `ipc_recv` have returned. -/
theorem received_are_sent {timerFrequencyHz : Nat} {events : List Event}
    (run : Run Step (bootKernel timerFrequencyHz) events k) (c : ChannelId) :
    (k.channels c).count ≤ ipcMaxMessages ∧
      (k.channels c).head = ((k.channels c).tail + (k.channels c).count) % ipcMaxMessages ∧
      ((k.channels c).inUse = true →
        (k.channels c).received.map Prod.snd =
            List.zipWith (fun bytes reply => bytes.take (min ipcMaxMsgSize reply.1))
              ((k.channels c).sent.take (k.channels c).received.length)
              (k.channels c).received ∧
          ((k.channels c).sent.drop (k.channels c).received.length).map (·.take ipcMaxMsgSize) =
            (Ring.contents (k.channels c).messages ipcMaxMessages (k.channels c).tail
              (k.channels c).count).map Message.data ∧
          (k.channels c).received.length + (k.channels c).count = (k.channels c).sent.length) ∧
      ((k.channels c).count = ipcMaxMessages → ∀ data, ipcSend k c data = k.answer (-1)) ∧
      ((k.channels c).inUse = true → ∀ event k', Step k event k' →
        Recorded k k' c (accepted k' c event) (asked k c event)) ∧
      ∀ k', Step k .ipcCreate k' → k'.reply.value = c →
        (k.channels c).inUse = false ∧ (k'.channels c).inUse = true ∧
          (k'.channels c).sent = [] ∧ (k'.channels c).received = [] := by
  have valid := (run_channels run).valid c
  refine ⟨valid.bounded, valid.head_eq, ?_, ?_, fun used _ _ => Recorded.step used, ?_⟩
  · intro used
    have lengths := congrArg List.length (valid.queued used)
    have inOrder := valid.inOrder used
    simp only [List.length_map, List.length_drop, Ring.length_contents] at lengths
    exact ⟨valid.received used, valid.queued used, by omega⟩
  · intro full data
    simp only [ipcSend, channelIndex_coe, full, le_refl, if_true]
    split
    · rfl
    · cases data <;> rfl
  · rintro _ ⟨-, rfl⟩ handed
    simp only [Kernel.after, ipcCreate] at handed ⊢
    split at handed
    · next d found =>
      obtain rfl : d = c := Fin.ext (by simpa [Kernel.answer] using handed)
      simpa [Kernel.updateChannel, Kernel.answer] using List.find?_some found
    · simp only [Kernel.answer] at handed
      omega

/-- A task creates a channel and sends two messages to it. -/
def deliveryEvents : List Event :=
  [.spawn false (some 65536) true, .schedulerStart, .ipcCreate, .ipcSend 0 (some [1, 2, 3]),
    .ipcSend 0 (some [4])]

/-- It then asks for two bytes of the first message. -/
theorem received_are_sent_two : ∃ k k', Run Step (bootKernel 100) deliveryEvents k ∧
    Step k (.ipcRecv 0 true 2) k' ∧ k'.reply.value = 2 ∧ k'.reply.data = [1, 2] ∧
    (k'.channels 0).sent = [[1, 2, 3], [4]] ∧ (k'.channels 0).received = [(2, [1, 2])] ∧
    Recorded k k' 0 none (some 2) := by
  have along : Along Kernel.after Kernel.Enabled (bootKernel 100) deliveryEvents := by
    decide +kernel
  have run : Run Step (bootKernel 100) deliveryEvents
      (deliveryEvents.foldl Kernel.after (bootKernel 100)) := Run.of_along along
  have used : ((deliveryEvents.foldl Kernel.after (bootKernel 100)).channels 0).inUse = true := by
    decide +kernel
  have step : Step (deliveryEvents.foldl Kernel.after (bootKernel 100)) (.ipcRecv 0 true 2) _ :=
    ⟨by decide +kernel, rfl⟩
  exact ⟨_, _, run, step, by decide +kernel, by decide +kernel, by decide +kernel,
    by decide +kernel, (received_are_sent run 0).2.2.2.2.1 used _ _ step⟩

/-- A receiver that waited for a channel which has been closed since fails, and leaves the
messages of the channel that has its slot now alone. -/
theorem closed_receiver_fails {timerFrequencyHz : Nat} {events : List Event}
    (run : Run Step (bootKernel timerFrequencyHz) events k) {t : TaskId} {c : ChannelId}
    {generation maxSize closes : Nat} (current : k.current = some t)
    (waits : (k.tasks t).frame.Receives c generation maxSize closes)
    (closed : closes < (k.channels c).closes)
    (fewer : (k.channels c).closes < closes + (2 ^ 32 - 1)) :
    (resume k).control = .task ∧ (resume k).reply.value = -1 ∧ (resume k).reply.data = [] ∧
      ∀ d, ∃ waitHead, (resume k).channels d = { k.channels d with waitHead } := by
  have good := run_channels run
  have stale : (k.channels c).generation ≠ generation := by
    rw [(good.valid c).generation, (good.seen t c generation maxSize closes waits).1]
    simp only [generationAfter]
    omega
  have released := Still.releaseTo k .task
  simp only [resume, current, show (k.tasks t).frame = _ from waits]
  generalize moved : ({ taskReleasePending k with control := .task } : Kernel) = k' at released
  have control : k'.control = .task := by
    rw [← moved]
  unfold ipcResume
  split
  · have relinks := Relinks.giveUp k' t c
    refine ⟨relinks.control.trans control, rfl, rfl, ?_⟩
    intro d
    obtain ⟨waitHead, same⟩ := relinks.channels d
    rw [released.channels] at same
    exact ⟨waitHead, same⟩
  · rw [if_pos (.inr (by rwa [released.channels]))]
    refine ⟨control, rfl, rfl, ?_⟩
    intro d
    exact ⟨(k.channels d).waitHead, congrFun released.channels d⟩

/-- While the first task waits on a channel, the second closes it, creates another one in its
slot and sends a message there. -/
def reusedSlotEvents : List Event :=
  [.spawn false (some 65536) true, .spawn false (some 98304) true, .schedulerStart, .ipcCreate,
    .ipcRecv 0 true 8, .ipcClose 0, .ipcCreate, .ipcSend 0 (some [7]), .schedulerYield]

theorem closed_receiver_fails_reused : ∃ k, Run Step (bootKernel 100) reusedSlotEvents k ∧
    k.current = some 0 ∧ (k.tasks 0).frame.Receives 0 1 8 0 ∧ (k.channels 0).inUse = true ∧
    (k.channels 0).count = 1 ∧ (resume k).reply.value = -1 ∧
    ∃ waitHead, (resume k).channels 0 = { k.channels 0 with waitHead } := by
  have along : Along Kernel.after Kernel.Enabled (bootKernel 100) reusedSlotEvents := by
    decide +kernel
  have run : Run Step (bootKernel 100) reusedSlotEvents
      (reusedSlotEvents.foldl Kernel.after (bootKernel 100)) := Run.of_along along
  have current : (reusedSlotEvents.foldl Kernel.after (bootKernel 100)).current = some 0 := by
    decide +kernel
  have waits : ((reusedSlotEvents.foldl Kernel.after (bootKernel 100)).tasks 0).frame.Receives
      0 1 8 0 := by
    unfold Frame.Receives
    decide +kernel
  have failed := closed_receiver_fails run current waits (by decide +kernel) (by decide +kernel)
  exact ⟨_, run, current, waits, by decide +kernel, by decide +kernel, failed.2.1,
    failed.2.2.2 0⟩

end Charis.Sched
