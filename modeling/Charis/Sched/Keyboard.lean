import Charis.Sched.Running

/-!
# The keyboard and the tasks that wait for it

A task inside `keyboard_read_line` that finds no key marks itself blocked, links itself in
the wait queue and yields, in three statements between which interrupts arrive.  The
interrupt handler of the keyboard takes the first task from the queue for every character
that it stores.

The hook for raw scancodes and the screen are left out.
-/

namespace Charis.Sched

open Charis.Lib

/-- The character of a key that has none. -/
abbrev nul : Char := '\x00'

/-- The table ends with keys that have no character. -/
def keyboardScancodeSet1 : List Char :=
  [nul, '\x1b', '1', '2', '3', '4', '5', '6', '7', '8', '9', '0', '-', '=', '\x08', '\t', 'q',
    'w', 'e', 'r', 't', 'y', 'u', 'i', 'o', 'p', '[', ']', '\n', nul, 'a', 's', 'd', 'f', 'g',
    'h', 'j', 'k', 'l', ';', '\x27', '\x60', nul, '\x5c', 'z', 'x', 'c', 'v', 'b', 'n', 'm', ',',
    '.', '/', nul, '*', nul, ' ', nul, nul, nul, nul, nul, nul, nul, nul, nul, nul, nul, nul, nul,
    nul, nul, nul, '-', nul, nul, nul, '+']

def keyboardScancodeSet1Shift : List Char :=
  [nul, '\x1b', '!', '@', '#', '$', '%', '^', '&', '*', '(', ')', '_', '+', '\x08', '\t', 'Q',
    'W', 'E', 'R', 'T', 'Y', 'U', 'I', 'O', 'P', '\x7b', '\x7d', '\n', nul, 'A', 'S', 'D', 'F',
    'G', 'H', 'J', 'K', 'L', ':', '\x22', '~', nul, '|', 'Z', 'X', 'C', 'V', 'B', 'N', 'M', '<',
    '>', '?', nul, '*', nul, ' ', nul, nul, nul, nul, nul, nul, nul, nul, nul, nul, nul, nul, nul,
    nul, nul, nul, '-', nul, nul, nul, '+']

/-- The statement of `keyboard_read_line` that a task comes to next. -/
inductive Statement where
  /-- None: the task is not in `keyboard_read_line`. -/
  | outside
  /-- The condition of the outer loop. -/
  | test
  /-- The call of `keyboard_get_key`. -/
  | getKey
  /-- The assignment of `TASK_STATE_BLOCKED`. -/
  | block
  /-- The call of `wait_queue_add`. -/
  | waitQueueAdd
  /-- The call of `scheduler_yield`. -/
  | schedulerYield
  /-- The end of the inner loop: the task has called `scheduler_yield`. -/
  | yielded
  /-- What follows the inner loop, with the key. -/
  | store (key : Char)
  deriving DecidableEq, Repr

structure Console where
  kernel : Kernel
  keyboardBuffer : Nat → Char := fun _ => nul
  keyboardReadPos : Nat := 0
  keyboardWritePos : Nat := 0
  shiftHeld : Bool := false
  /-- The last scancode was the prefix `0xE0`. -/
  extended : Bool := false
  /-- The tasks from `wait_queue_head` to `wait_queue_tail`. -/
  waitQueue : List TaskId := []
  /-- Where the tasks are in `keyboard_read_line`. -/
  statement : TaskId → Statement := fun _ => .outside
  /-- The `max_len` of the last call of a task. -/
  maxLen : TaskId → Nat := fun _ => 0
  /-- The line that the last call of a task has read so far. -/
  line : TaskId → List Char := fun _ => []

namespace Console

def goto (c : Console) (t : TaskId) (statement : Statement) : Console :=
  { c with statement := Function.update c.statement t statement }

/-- `wait_queue_add`, given whether `kmalloc` returns a node. -/
def waitQueueAdd (c : Console) (t : TaskId) (node : Bool) : Console :=
  if node then { c with waitQueue := c.waitQueue ++ [t] } else c

def waitQueueWake (c : Console) : Console :=
  match c.waitQueue with
  | [] => c
  | t :: rest =>
      { c with
        waitQueue := rest
        kernel :=
          if (c.kernel.tasks t).state = .blocked then c.kernel.setState t .ready else c.kernel }

/-- The part of `keyboard_handler` for a character. -/
def storeKey (c : Console) (key : Char) : Console :=
  let nextWritePos := (c.keyboardWritePos + 1) % 256
  if nextWritePos ≠ c.keyboardReadPos then
    waitQueueWake
      { c with
        keyboardBuffer := Function.update c.keyboardBuffer c.keyboardWritePos key
        keyboardWritePos := nextWritePos }
  else c

def keyboardHandler (c : Console) (scancode : UInt8) : Console :=
  let pressed := scancode &&& 0x80 = 0
  if scancode = 0x2A ∨ scancode = 0x36 ∨ scancode = 0xAA ∨ scancode = 0xB6 then
    { c with shiftHeld := pressed }
  else if scancode = 0xE0 then { c with extended := true }
  else
    let code := scancode &&& 0x7F
    let stored :=
      if pressed ∧ !c.extended ∧ code < 128 then
        let table := if c.shiftHeld then keyboardScancodeSet1Shift else keyboardScancodeSet1
        let key := table.getD code.toNat nul
        if key ≠ nul then c.storeKey key else c
      else c
    { stored with extended := false }

def keyboardGetKey (c : Console) : Option Char × Console :=
  if c.keyboardReadPos ≠ c.keyboardWritePos then
    (some (c.keyboardBuffer c.keyboardReadPos),
      { c with keyboardReadPos := (c.keyboardReadPos + 1) % 256 })
  else (none, c)

/-- The call of `keyboard_read_line` by a task. -/
def keyboardReadLine (c : Console) (t : TaskId) (maxLen : Nat) : Console :=
  if maxLen = 0 then c
  else
    { c with
      maxLen := Function.update c.maxLen t maxLen
      line := Function.update c.line t [] }.goto t .test

/-- A task executes its next statement of `keyboard_read_line`. -/
def execute (c : Console) (t : TaskId) (node : Bool) : Console :=
  match c.statement t with
  | .outside => c
  | .test => c.goto t (if (c.line t).length < c.maxLen t - 1 then .getKey else .outside)
  | .getKey =>
      match c.keyboardGetKey with
      | (some key, c) => c.goto t (.store key)
      | (none, c) => c.goto t .block
  | .block => { c with kernel := c.kernel.setState t .blocked }.goto t .waitQueueAdd
  | .waitQueueAdd => (c.waitQueueAdd t node).goto t .schedulerYield
  | .schedulerYield =>
      { c with
        kernel := (Sched.schedulerYield c.kernel .returning).getD c.kernel }.goto t .yielded
  | .yielded => c.goto t .getKey
  | .store key =>
      if key = '\n' then c.goto t .outside
      else { c with line := Function.update c.line t (c.line t ++ [key]) }.goto t .test

end Console

inductive ConsoleEvent where
  /-- The boot code, a task outside `keyboard_read_line`, the timer, or the kernel as it
  returns to a task. -/
  | kernel (event : Event)
  | keyboardHandler (scancode : UInt8)
  /-- Something else takes a key. -/
  | keyboardGetKey
  | keyboardReadLine (maxLen : Nat)
  /-- The current task executes a statement of `keyboard_read_line`; `node` tells whether
  `kmalloc` returns a node of the wait queue. -/
  | execute (node : Bool)

namespace Console

variable (c : Console)

def after : ConsoleEvent → Console
  | .kernel event => { c with kernel := c.kernel.after event }
  | .keyboardHandler scancode => c.keyboardHandler scancode
  | .keyboardGetKey => c.keyboardGetKey.2
  | .keyboardReadLine maxLen =>
      match c.kernel.current with
      | some t => c.keyboardReadLine t maxLen
      | none => c
  | .execute node =>
      match c.kernel.current with
      | some t => c.execute t node
      | none => c

/-- The current task, if there is one, is not inside `keyboard_read_line`. -/
def CurrentOutside : Prop :=
  ∀ t ∈ c.kernel.current, c.statement t = .outside

instance : Decidable c.CurrentOutside :=
  inferInstanceAs (Decidable (∀ _ ∈ _, _))

/-- What happens in the kernel beside `keyboard_read_line`. -/
def Beside : Event → Prop
  | .timerHandler | .resume | .schedulerStart => True
  | .spawn .. | .schedulerYield => c.CurrentOutside
  | _ => False

instance : (event : Event) → Decidable (c.Beside event)
  | .timerHandler | .resume | .schedulerStart => inferInstanceAs (Decidable True)
  | .spawn .. | .schedulerYield => inferInstanceAs (Decidable c.CurrentOutside)
  | .taskSleepMs _ | .taskWakeSleepers _ | .schedulerBlockTask _ | .schedulerUnblockTask _
  | .ipcCreate | .ipcSend _ _ | .ipcRecv _ _ _ | .ipcClose _ | .pipeCreate | .pipeRead _ _ _
  | .pipeWrite _ _ | .pipeClose _ | .taskExitWithStatus _ => inferInstanceAs (Decidable False)

/-- When a step can happen.  Interrupts arrive between any two statements. -/
def Enabled : ConsoleEvent → Prop
  | .kernel event => c.kernel.Enabled event ∧ c.Beside event
  | .keyboardHandler _ => True
  | .keyboardGetKey | .keyboardReadLine _ => c.kernel.control = .task ∧ c.CurrentOutside
  | .execute _ => c.kernel.control = .task

instance : (event : ConsoleEvent) → Decidable (c.Enabled event)
  | .kernel event => inferInstanceAs (Decidable (c.kernel.Enabled event ∧ c.Beside event))
  | .keyboardHandler _ => inferInstanceAs (Decidable True)
  | .keyboardGetKey | .keyboardReadLine _ => inferInstanceAs (Decidable (_ ∧ c.CurrentOutside))
  | .execute _ => inferInstanceAs (Decidable (_ = _))

def Step (event : ConsoleEvent) (c' : Console) : Prop :=
  c.Enabled event ∧ c' = c.after event

/-- A task is inside `keyboard_read_line` and blocked. -/
def BlockedInside (t : TaskId) : Prop :=
  c.statement t ≠ .outside ∧ (c.kernel.tasks t).state = .blocked

/-- A task has been switched away from inside `keyboard_read_line` while it was blocked. -/
def BlockedAway (t : TaskId) : Prop :=
  c.BlockedInside t ∧ c.kernel.current ≠ some t

/-- The handler puts a character for the scancode into the buffer. -/
def Stores (scancode : UInt8) : Prop :=
  (c.keyboardHandler scancode).keyboardWritePos ≠ c.keyboardWritePos

/-- The wait queue links exactly the tasks that wait for a key, and every character wakes
one of them. -/
structure WaitsSound : Prop where
  linked : ∀ t, c.BlockedAway t → c.waitQueue.count t = 1
  unlinked : ∀ t, ¬ c.BlockedInside t → t ∉ c.waitQueue
  wakes : ∀ scancode, c.Stores scancode → (∃ t, c.BlockedAway t) →
    ∃ t, c.BlockedAway t ∧ ((c.keyboardHandler scancode).kernel.tasks t).state = .ready

end Console

/-- The console at boot, before any task has been created. -/
def bootConsole (timerFrequencyHz : Nat) : Console :=
  { kernel := bootKernel timerFrequencyHz }

variable {k k' : Kernel} {c c' : Console}

/-- A step of the kernel that neither blocks a task nor wakes a blocked one. -/
structure Shifts (before after : Kernel) : Prop where
  blocked : ∀ t, (after.tasks t).state = .blocked ↔ (before.tasks t).state = .blocked
  waiting : (∀ t, (before.tasks t).waitingEvent = 0) → ∀ t, (after.tasks t).waitingEvent = 0
  frame : ∀ t, (∃ point, (after.tasks t).frame = .suspended point ∧ point ≠ .returning) →
    ∃ point, (before.tasks t).frame = .suspended point ∧ point ≠ .returning
  pendingStack : after.pendingStack = before.pendingStack
  control : after.control = .halted → before.control = .halted
  boot : after.control = .boot → before.control = .boot
  current : after.current = before.current ∨
    ∃ t, after.current = some t ∧ (before.tasks t).state ≠ .blocked

namespace Shifts

theorem refl (k : Kernel) : Shifts k k :=
  ⟨fun _ => .rfl, id, fun _ => id, rfl, id, id, .inl rfl⟩

theorem trans {k'' : Kernel} (first : Shifts k k') (second : Shifts k' k'') : Shifts k k'' where
  blocked t := (second.blocked t).trans (first.blocked t)
  waiting none := second.waiting (first.waiting none)
  frame t other := first.frame t (second.frame t other)
  pendingStack := second.pendingStack.trans first.pendingStack
  control halted := first.control (second.control halted)
  boot boot := first.boot (second.boot boot)
  current := by
    rcases second.current with same | ⟨t, entered, awake⟩
    · rw [same]
      exact first.current
    · right
      exact ⟨t, entered, fun blocked => awake ((first.blocked t).mpr blocked)⟩

/-- A change of one task that concerns neither its state nor what it waits for. -/
theorem updateTask (k : Kernel) (t : TaskId) {change : Task → Task}
    (state : (change (k.tasks t)).state = (k.tasks t).state)
    (waiting : (change (k.tasks t)).waitingEvent = (k.tasks t).waitingEvent)
    (frame : (change (k.tasks t)).frame = (k.tasks t).frame) :
    Shifts k (k.updateTask t change) := by
  have same : ∀ u, ((k.updateTask t change).tasks u).state = (k.tasks u).state ∧
      ((k.updateTask t change).tasks u).waitingEvent = (k.tasks u).waitingEvent ∧
      ((k.updateTask t change).tasks u).frame = (k.tasks u).frame := by
    intro u
    rw [updateTask_tasks]
    split
    · next here => rw [here]; exact ⟨state, waiting, frame⟩
    · exact ⟨rfl, rfl, rfl⟩
  constructor
  · intro u
    rw [(same u).1]
  · intro none u
    rw [(same u).2.1]
    exact none u
  · intro u
    rw [(same u).2.2]
    exact id
  · rfl
  · exact id
  · exact id
  · exact .inl rfl

theorem switchTo (k : Kernel) {next : TaskId} (awake : (k.tasks next).state ≠ .blocked) :
    Shifts k (switchTo k next) := by
  have other : ∀ t, t ≠ next → (Sched.switchTo k next).tasks t = k.tasks t := by
    intro t different
    simp [Sched.switchTo, contextSwitch, different]
  have entered : (Sched.switchTo k next).tasks next =
      { k.tasks next with state := .running, started := true } := by
    simp [Sched.switchTo, contextSwitch]
  have control : ∀ control, (Sched.switchTo k next).control = control →
      control ≠ .halted ∧ control ≠ .boot := by
    intro control same
    rw [← same]
    simp only [Sched.switchTo, contextSwitch]
    split <;> simp
  constructor
  · intro t
    by_cases same : t = next
    · rw [same, entered]
      simp [awake]
    · rw [other t same]
  · intro none t
    by_cases same : t = next
    · rw [same, entered]
      exact none next
    · rw [other t same]
      exact none t
  · intro t
    by_cases same : t = next
    · rw [same, entered]
      exact id
    · rw [other t same]
      exact id
  · rfl
  · intro halted
    exact ((control _ halted).1 rfl).elim
  · intro boot
    exact ((control _ boot).2 rfl).elim
  · exact .inr ⟨next, rfl, awake⟩

theorem leave (k : Kernel) (t : TaskId) :
    Shifts k (k.updateTask t fun task =>
      { task with
        state := if task.state = .running then .ready else task.state
        frame := .suspended .returning }) := by
  constructor
  · intro u
    rw [updateTask_tasks]
    split
    · next same =>
      rw [same]
      dsimp only
      split
      · next running => simp [running]
      · rfl
    · rfl
  · intro none u
    rw [updateTask_tasks]
    split
    · exact none t
    · exact none u
  · intro u
    rw [updateTask_tasks]
    split
    · rintro ⟨point, suspended, other⟩
      exact (other (Frame.suspended.inj suspended).symm).elim
    · exact id
  · rfl
  · exact id
  · exact id
  · exact .inl rfl

theorem schedule (switched : schedulerSchedule k .returning = some k') : Shifts k k' := by
  unfold schedulerSchedule at switched
  split at switched
  · cases switched
  next next found =>
  have ready := findNext_ready found
  split at switched
  · cases switched
  split at switched
  · rw [Option.some.injEq] at switched
    rw [← switched]
    exact switchTo k (by simp [ready])
  · next previous _ =>
    rw [Option.some.injEq] at switched
    rw [← switched]
    have left := leave k previous
    have awake : (k.tasks next).state ≠ .blocked := by simp [ready]
    exact left.trans (switchTo _ fun blocked => awake ((left.blocked next).mp blocked))

theorem yield (k : Kernel) : Shifts k ((schedulerYield k .returning).getD k) := by
  cases switched : schedulerYield k .returning with
  | none => exact refl k
  | some k' => exact schedule (schedule_of_yield switched)

end Shifts

/-- Nobody sleeps, so the timer wakes nobody. -/
theorem wakeSleepers_eq (awake : ∀ t, (k.tasks t).waitingEvent = 0) (now : Nat) :
    taskWakeSleepers k now = k := by
  have tasks : (taskWakeSleepers k now).tasks = k.tasks := by
    funext t
    simp [taskWakeSleepers, awake t]
  calc taskWakeSleepers k now = { k with tasks := (taskWakeSleepers k now).tasks } := rfl
    _ = k := by rw [tasks]

namespace Shifts

theorem timer (awake : ∀ t, (k.tasks t).waitingEvent = 0) (control : k.control ≠ .halted) :
    Shifts k (timerHandler k) := by
  unfold timerHandler
  generalize ticked : ({ k with timerTicks := _ } : Kernel) = counted
  have tick : Shifts k counted := by
    rw [← ticked]
    exact ⟨fun _ => .rfl, id, fun _ => id, rfl, id, id, .inl rfl⟩
  dsimp only
  rw [wakeSleepers_eq (tick.waiting awake)]
  split
  · exact tick
  next t _ =>
  split
  · have reset := tick.trans (@updateTask counted t
      ({ · with remainingQuantum := taskDefaultQuantum }) rfl rfl rfl)
    rw [if_neg fun halted => control (reset.control halted)]
    generalize Kernel.updateTask counted t _ = fresh at reset ⊢
    cases switched : schedulerSchedule fresh .returning with
    | none => exact reset
    | some k' => exact reset.trans (schedule switched)
  · exact tick.trans (updateTask counted t rfl rfl rfl)

/-- A change of a slot that was unused. -/
theorem fresh {t : TaskId} (unused : (k.tasks t).state = .unused)
    (same : k'.current = k.current ∧ k'.control = k.control ∧ k'.pendingStack = k.pendingStack)
    (others : ∀ u, u ≠ t → k'.tasks u = k.tasks u)
    (awake : (k'.tasks t).state ≠ .blocked) (waiting : (k'.tasks t).waitingEvent = 0)
    (frame : ∀ point, (k'.tasks t).frame = .suspended point →
      (k.tasks t).frame = .suspended point) : Shifts k k' := by
  obtain ⟨current, control, pendingStack⟩ := same
  constructor
  · intro u
    by_cases here : u = t
    · rw [here]
      simp [awake, unused]
    · rw [others u here]
  · intro none u
    by_cases here : u = t
    · rw [here]
      exact waiting
    · rw [others u here]
      exact none u
  · intro u
    by_cases here : u = t
    · rw [here]
      rintro ⟨point, suspended, other⟩
      exact ⟨point, frame point suspended, other⟩
    · rw [others u here]
      exact id
  · exact pendingStack
  · rw [control]
    exact id
  · rw [control]
    exact id
  · exact .inl current

theorem spawn (k : Kernel) (isUser : Bool) (stack : Option Nat) (addressSpace : Bool) :
    Shifts k (spawn k isUser stack addressSpace) := by
  rcases spawn_cases k isUser stack addressSpace with same | ⟨t, spawned⟩
  · rw [same]
    exact refl k
  obtain ⟨_, _, _, _, _, _, same⟩ := spawned.same
  refine fresh spawned.unused ?_ spawned.others ?_ spawned.waiting ?_
  · rw [same]
    exact ⟨rfl, rfl, rfl⟩
  · rcases spawned.outcome with ⟨state, -⟩ | ⟨state, -⟩ <;> simp [state]
  · rcases spawned.outcome with ⟨-, frame, -⟩ | ⟨-, frame, -⟩
    · rw [frame]
      exact fun _ => id
    · exact fun point suspended => absurd suspended (frame point)

theorem start (awake : ∀ t, (k.tasks t).state ≠ .blocked) : Shifts k (schedulerStart k) := by
  unfold schedulerStart
  split
  · exact refl k
  · exact switchTo k (awake _)

theorem resume (returning : ∀ t point, (k.tasks t).frame = .suspended point → point = .returning)
    (pendingStack : k.pendingStack = 0) :
    Shifts k (resume k) ∧ (Sched.resume k).current = k.current := by
  unfold Sched.resume
  split
  · exact ⟨refl k, rfl⟩
  next t current =>
  split
  · rw [taskReleasePending, if_pos pendingStack]
    exact ⟨⟨fun _ => .rfl, id, fun _ => id, rfl, nofun, nofun, .inl rfl⟩, rfl⟩
  · next suspended => cases returning t _ suspended
  · next suspended => cases returning t _ suspended
  · exact ⟨refl k, rfl⟩
  · exact ⟨refl k, rfl⟩

end Shifts

/-! ## The invariant -/

/-- What holds of the wait queue between two statements: it links the blocked tasks, except
one that has just marked itself, and the current task only as its last. -/
structure Orderly (k : Kernel) (queue : List TaskId) (statement : TaskId → Statement) : Prop where
  queued : ∀ t ∈ queue, (k.tasks t).state = .blocked ∧
    (statement t = .schedulerYield ∨ statement t = .yielded)
  nodup : queue.Nodup
  blocked : ∀ t, (k.tasks t).state = .blocked → statement t = .waitQueueAdd ∨ t ∈ queue
  adding : ∀ t, statement t = .waitQueueAdd →
    (k.tasks t).state = .blocked ∧ k.current = some t
  last : ∀ t, k.current = some t → t ∈ queue →
    statement t = .schedulerYield ∧ queue.getLast? = some t
  boot : k.control = .boot → ∀ t, statement t = .outside
  waiting : ∀ t, (k.tasks t).waitingEvent = 0
  returning : ∀ t point, (k.tasks t).frame = .suspended point → point = .returning
  pendingStack : k.pendingStack = 0
  control : k.control ≠ .halted

namespace Orderly

variable {queue : List TaskId} {statement : TaskId → Statement} {t : TaskId}

theorem shift (orderly : Orderly k queue statement) (shifts : Shifts k k')
    (stays : ∀ t, statement t = .waitQueueAdd → k'.current = k.current) :
    Orderly k' queue statement where
  queued t member := by
    rw [shifts.blocked t]
    exact orderly.queued t member
  nodup := orderly.nodup
  blocked t blocked := orderly.blocked t ((shifts.blocked t).mp blocked)
  adding t adding := by
    rw [shifts.blocked t, stays t adding]
    exact orderly.adding t adding
  last t current member := by
    rcases shifts.current with same | ⟨u, entered, awake⟩
    · exact orderly.last t (same ▸ current) member
    · rw [entered, Option.some.injEq] at current
      rw [current] at awake
      exact (awake (orderly.queued t member).1).elim
  boot boot := orderly.boot (shifts.boot boot)
  waiting := shifts.waiting orderly.waiting
  returning t point suspended := by
    by_contra other
    obtain ⟨point', before, different⟩ := shifts.frame t ⟨point, suspended, other⟩
    exact different (orderly.returning t point' before)
  pendingStack := shifts.pendingStack.trans orderly.pendingStack
  control halted := orderly.control (shifts.control halted)

/-- A task that is not linked goes from a statement to another. -/
theorem goto (orderly : Orderly k queue statement) (started : k.control ≠ .boot)
    (free : t ∉ queue) (other : statement t ≠ .waitQueueAdd) {next : Statement}
    (different : next ≠ .waitQueueAdd) :
    Orderly k queue (Function.update statement t next) where
  queued u member := by
    have elsewhere : u ≠ t := fun same => free (same ▸ member)
    rw [Function.update_of_ne elsewhere]
    exact orderly.queued u member
  nodup := orderly.nodup
  blocked u blocked := by
    rcases orderly.blocked u blocked with adding | member
    · have elsewhere : u ≠ t := fun same => other (same ▸ adding)
      left
      rw [Function.update_of_ne elsewhere]
      exact adding
    · exact .inr member
  adding u adding := by
    have elsewhere : u ≠ t := by
      intro same
      rw [same, Function.update_self] at adding
      exact different adding
    rw [Function.update_of_ne elsewhere] at adding
    exact orderly.adding u adding
  last u current member := by
    have elsewhere : u ≠ t := fun same => free (same ▸ member)
    rw [Function.update_of_ne elsewhere]
    exact orderly.last u current member
  boot boot := (started boot).elim
  waiting := orderly.waiting
  returning := orderly.returning
  pendingStack := orderly.pendingStack
  control := orderly.control

theorem not_mem (orderly : Orderly k queue statement) (other : statement t ≠ .schedulerYield)
    (other' : statement t ≠ .yielded) : t ∉ queue := by
  intro member
  rcases (orderly.queued t member).2 with same | same
  · exact other same
  · exact other' same

/-- The current task marks itself. -/
theorem block (orderly : Orderly k queue statement) (current : k.current = some t)
    (started : k.control ≠ .boot) (free : t ∉ queue) :
    Orderly (k.setState t .blocked) queue (Function.update statement t .waitQueueAdd) where
  queued u member := by
    have elsewhere : u ≠ t := fun same => free (same ▸ member)
    rw [setState_tasks, if_neg elsewhere, Function.update_of_ne elsewhere]
    exact orderly.queued u member
  nodup := orderly.nodup
  blocked u blocked := by
    by_cases here : u = t
    · left
      rw [here, Function.update_self]
    · rw [setState_tasks, if_neg here] at blocked
      rw [Function.update_of_ne here]
      exact orderly.blocked u blocked
  adding u adding := by
    by_cases here : u = t
    · rw [here, setState_tasks, if_pos rfl]
      exact ⟨rfl, current⟩
    · rw [Function.update_of_ne here] at adding
      -- The current task alone can be between the two statements.
      have same := (orderly.adding u adding).2
      rw [current, Option.some.injEq] at same
      exact (here same.symm).elim
  last u current' member := by
    have same : t = u := Option.some.inj (current.symm.trans current')
    exact (free (same ▸ member)).elim
  boot boot := (started boot).elim
  waiting u := by
    rw [setState_tasks]
    split
    · exact orderly.waiting t
    · exact orderly.waiting u
  returning u point := by
    rw [setState_tasks]
    split
    · exact orderly.returning t point
    · exact orderly.returning u point
  pendingStack := orderly.pendingStack
  control := orderly.control

/-- The task that has marked itself is linked. -/
theorem add (orderly : Orderly k queue statement) (started : k.control ≠ .boot)
    (adding : statement t = .waitQueueAdd) :
    Orderly k (queue ++ [t]) (Function.update statement t .schedulerYield) where
  queued u member := by
    by_cases here : u = t
    · rw [here, Function.update_self]
      exact ⟨(orderly.adding t adding).1, .inl rfl⟩
    · rw [Function.update_of_ne here]
      rw [List.mem_append, List.mem_singleton] at member
      exact orderly.queued u (member.resolve_right here)
  nodup := by
    have free := orderly.not_mem (t := t) (by simp [adding]) (by simp [adding])
    rw [List.nodup_append]
    refine ⟨orderly.nodup, List.nodup_singleton t, ?_⟩
    intro u member v single same
    rw [List.mem_singleton] at single
    rw [same, single] at member
    exact free member
  blocked u blocked := by
    by_cases here : u = t
    · right
      simp [here]
    · rw [Function.update_of_ne here]
      rcases orderly.blocked u blocked with other | member
      · exact .inl other
      · exact .inr (List.mem_append_left _ member)
  adding u adding' := by
    have elsewhere : u ≠ t := by
      intro same
      rw [same, Function.update_self] at adding'
      cases adding'
    rw [Function.update_of_ne elsewhere] at adding'
    exact orderly.adding u adding'
  last u current _ := by
    have same : t = u := Option.some.inj ((orderly.adding t adding).2.symm.trans current)
    rw [← same, Function.update_self]
    exact ⟨rfl, List.getLast?_concat⟩
  boot boot := (started boot).elim
  waiting := orderly.waiting
  returning := orderly.returning
  pendingStack := orderly.pendingStack
  control := orderly.control

/-- A task has called `scheduler_yield`, which has switched away from it if it is linked. -/
theorem rest (orderly : Orderly k queue statement) (started : k.control ≠ .boot)
    (yielding : statement t = .schedulerYield) (away : k.current = some t → t ∉ queue) :
    Orderly k queue (Function.update statement t .yielded) where
  queued u member := by
    refine ⟨(orderly.queued u member).1, ?_⟩
    by_cases here : u = t
    · right
      rw [here, Function.update_self]
    · rw [Function.update_of_ne here]
      exact (orderly.queued u member).2
  nodup := orderly.nodup
  blocked u blocked := by
    rcases orderly.blocked u blocked with adding | member
    · have elsewhere : u ≠ t := by
        intro same
        rw [same, yielding] at adding
        cases adding
      left
      rw [Function.update_of_ne elsewhere]
      exact adding
    · exact .inr member
  adding u adding := by
    have elsewhere : u ≠ t := by
      intro same
      rw [same, Function.update_self] at adding
      cases adding
    rw [Function.update_of_ne elsewhere] at adding
    exact orderly.adding u adding
  last u current member := by
    have elsewhere : u ≠ t := by
      intro same
      rw [same] at current member
      exact away current member
    rw [Function.update_of_ne elsewhere]
    exact orderly.last u current member
  boot boot := (started boot).elim
  waiting := orderly.waiting
  returning := orderly.returning
  pendingStack := orderly.pendingStack
  control := orderly.control

/-- The first task of the queue is woken. -/
theorem wake {rest : List TaskId} (orderly : Orderly k (t :: rest) statement) :
    Orderly (k.setState t .ready) rest statement := by
  have nodup := List.nodup_cons.mp orderly.nodup
  have others : ∀ u ∈ rest, u ≠ t := fun u member same => nodup.1 (same ▸ member)
  constructor
  · intro u member
    rw [setState_tasks, if_neg (others u member)]
    exact orderly.queued u (List.mem_cons_of_mem t member)
  · exact nodup.2
  · intro u blocked
    by_cases here : u = t
    · rw [here, setState_tasks, if_pos rfl] at blocked
      cases blocked
    · rw [setState_tasks, if_neg here] at blocked
      rcases orderly.blocked u blocked with adding | member
      · exact .inl adding
      · exact .inr ((List.mem_cons.mp member).resolve_left here)
  · intro u adding
    have elsewhere : u ≠ t := by
      intro same
      rcases (orderly.queued t List.mem_cons_self).2 with other | other
      · rw [same, other] at adding
        cases adding
      · rw [same, other] at adding
        cases adding
    rw [setState_tasks, if_neg elsewhere]
    exact orderly.adding u adding
  · intro u current member
    obtain ⟨yielding, last⟩ := orderly.last u current (List.mem_cons_of_mem t member)
    refine ⟨yielding, ?_⟩
    cases rest with
    | nil => cases member
    | cons v rest => rwa [List.getLast?_cons_cons] at last
  · exact orderly.boot
  · intro u
    rw [setState_tasks]
    split
    · exact orderly.waiting t
    · exact orderly.waiting u
  · intro u point
    rw [setState_tasks]
    split
    · exact orderly.returning t point
    · exact orderly.returning u point
  · exact orderly.pendingStack
  · exact orderly.control

end Orderly

/-! ## The steps -/

theorem schedule_leaves {point : Point} (switched : schedulerSchedule k point = some k') :
    k'.current ≠ k.current := by
  unfold schedulerSchedule at switched
  split at switched
  · cases switched
  next next _ =>
  split at switched
  · cases switched
  next other =>
  have entered : k'.current = some next := by
    split at switched
    · rw [← Option.some.inj switched]
      rfl
    · rw [← Option.some.inj switched]
      rfl
  rw [entered]
  exact Ne.symm other

/-- The timer leaves a blocked task alone while its quantum lasts, and if nobody is ready. -/
theorem timer_stays (awake : ∀ t, (k.tasks t).waitingEvent = 0) {t : TaskId}
    (current : k.current = some t) (blocked : (k.tasks t).state = .blocked)
    (careful : 1 < (k.tasks t).remainingQuantum ∨ ¬ OtherReady k) :
    (timerHandler k).current = k.current := by
  unfold timerHandler
  generalize ticked : ({ k with timerTicks := _ } : Kernel) = counted
  have tasks : counted.tasks = k.tasks := by rw [← ticked]
  have order : counted.order = k.order := by rw [← ticked]
  have same : counted.current = some t := by rw [← ticked]; exact current
  dsimp only
  rw [wakeSleepers_eq (by rw [tasks]; exact awake), same, tasks]
  dsimp only
  split
  · next expired =>
    have alone : ¬ OtherReady k := careful.resolve_left (by omega)
    generalize reset : Kernel.updateTask counted t _ = fresh
    have states : ∀ u, (fresh.tasks u).state = (k.tasks u).state := by
      intro u
      rw [← reset, updateTask_tasks, tasks]
      split
      · next here => rw [here]
      · rfl
    have current' : fresh.current = some t := by rw [← reset]; exact same
    have order' : fresh.order = k.order := by rw [← reset]; exact order
    have none : schedulerFindNext fresh = none := by
      unfold schedulerFindNext
      rw [List.find?_eq_none]
      intro u member ready
      rw [decide_eq_true_eq, states u] at ready
      rcases mem_of_mem_searchOrder member with listed | here
      · refine alone ⟨u, order' ▸ listed, ?_, ready⟩
        intro here
        rw [current, Option.some.injEq] at here
        rw [here, ready] at blocked
        cases blocked
      · rw [current', Option.some.injEq] at here
        rw [here, ready] at blocked
        cases blocked
    simp only [schedulerSchedule, none, Option.getD_none]
    rw [current', current]
  · rw [current]
    exact same

namespace Console

/-- No timer interrupt switches away from a task between the statement that marks it and the
one that links it, there is memory for the node, and a task that is still blocked when it
yields finds another to switch to. -/
def Careful (c : Console) : ConsoleEvent → Prop
  | .kernel .timerHandler =>
      ∀ t ∈ c.kernel.current, c.statement t = .waitQueueAdd →
        1 < (c.kernel.tasks t).remainingQuantum ∨ ¬ OtherReady c.kernel
  | .execute node =>
      ∀ t ∈ c.kernel.current, (c.statement t = .waitQueueAdd → node = true) ∧
        (c.statement t = .schedulerYield → (c.kernel.tasks t).state = .blocked →
          OtherReady c.kernel)
  | _ => True

instance (c : Console) (node : Bool) : Decidable (c.Careful (.execute node)) :=
  inferInstanceAs (Decidable (∀ t ∈ c.kernel.current, _ ∧ _))

def Good (c : Console) : Prop :=
  Orderly c.kernel c.waitQueue c.statement

theorem Good.wake (good : c.Good) : c.waitQueueWake.Good := by
  unfold waitQueueWake
  split
  · exact good
  · next t rest queue =>
    unfold Good at good ⊢
    rw [queue] at good
    dsimp only
    rw [if_pos (good.queued t List.mem_cons_self).1]
    exact good.wake

/-- The tasks, their queue and where they are have not changed. -/
structure Untouched (before after : Console) : Prop where
  kernel : after.kernel = before.kernel
  waitQueue : after.waitQueue = before.waitQueue
  statement : after.statement = before.statement

theorem Good.untouched (good : c.Good) (same : Untouched c c') : c'.Good := by
  unfold Good
  rw [same.kernel, same.waitQueue, same.statement]
  exact good

theorem storeKey_cases (c : Console) (key : Char) :
    c.storeKey key = c ∨ Untouched c.waitQueueWake (c.storeKey key) := by
  unfold storeKey
  dsimp only
  split
  · right
    unfold waitQueueWake
    dsimp only
    split <;> exact ⟨rfl, rfl, rfl⟩
  · exact .inl rfl

/-- The handler changes the tasks and their queue as a wake-up does, if it stores a
character, and not at all otherwise. -/
theorem keyboardHandler_cases (c : Console) (scancode : UInt8) :
    (¬ c.Stores scancode ∧ Untouched c (c.keyboardHandler scancode)) ∨
      Untouched c.waitQueueWake (c.keyboardHandler scancode) := by
  unfold Stores keyboardHandler
  dsimp only
  split
  · exact .inl ⟨not_not.mpr rfl, rfl, rfl, rfl⟩
  split
  · exact .inl ⟨not_not.mpr rfl, rfl, rfl, rfl⟩
  split
  · generalize List.getD _ _ _ = key
    split
    · rcases storeKey_cases c key with same | woken
      · left
        rw [same]
        exact ⟨not_not.mpr rfl, rfl, rfl, rfl⟩
      · exact .inr ⟨woken.kernel, woken.waitQueue, woken.statement⟩
    · exact .inl ⟨not_not.mpr rfl, rfl, rfl, rfl⟩
  · exact .inl ⟨not_not.mpr rfl, rfl, rfl, rfl⟩

theorem Good.handler (good : c.Good) (scancode : UInt8) : (c.keyboardHandler scancode).Good := by
  rcases keyboardHandler_cases c scancode with ⟨_, same⟩ | woken
  · exact good.untouched same
  · exact good.wake.untouched woken

theorem Good.execute (good : c.Good) {t : TaskId} (current : c.kernel.current = some t)
    (inTask : c.kernel.control = .task) {node : Bool} (careful : c.Careful (.execute node)) :
    (c.execute t node).Good := by
  have started : c.kernel.control ≠ .boot := by simp [inTask]
  obtain ⟨hasNode, switches⟩ := careful t current
  unfold Console.execute
  cases statement : c.statement t with
  | outside => exact good
  | test =>
      dsimp only
      have free := good.not_mem (t := t) (by simp [statement]) (by simp [statement])
      split
      · exact good.goto started free (by simp [statement]) nofun
      · exact good.goto started free (by simp [statement]) nofun
  | getKey =>
      have free := good.not_mem (t := t) (by simp [statement]) (by simp [statement])
      dsimp only
      unfold keyboardGetKey
      split_ifs
      · exact good.goto started free (by simp [statement]) nofun
      · exact good.goto started free (by simp [statement]) nofun
  | block =>
      have free := good.not_mem (t := t) (by simp [statement]) (by simp [statement])
      exact Orderly.block good current started free
  | waitQueueAdd =>
      rw [hasNode statement]
      exact Orderly.add good started statement
  | schedulerYield =>
      have only : ∀ u, c.statement u ≠ .waitQueueAdd := by
        intro u adding
        have same := (good.adding u adding).2
        rw [current, Option.some.injEq] at same
        rw [← same, statement] at adding
        cases adding
      have shifts := Shifts.yield c.kernel
      have shifted := Orderly.shift good shifts fun u adding => (only u adding).elim
      refine Orderly.rest shifted ?_ statement ?_
      · intro boot
        exact started (shifts.boot boot)
      · intro stays member
        have blocked := (good.queued t member).1
        obtain ⟨k', switched⟩ := yield_switches current blocked (switches statement blocked)
          .returning
        rw [switched, Option.getD_some, ← current] at stays
        exact schedule_leaves (schedule_of_yield switched) stays
  | yielded =>
      have free : t ∉ c.waitQueue := by
        intro member
        have yielding := (good.last t current member).1
        rw [statement] at yielding
        cases yielding
      exact good.goto started free (by simp [statement]) nofun
  | store key =>
      have free := good.not_mem (t := t) (by simp [statement]) (by simp [statement])
      dsimp only
      split
      · exact good.goto started free (by simp [statement]) nofun
      · exact good.goto started free (by simp [statement]) nofun

/-- The kernel goes on while no task is between marking and linking itself, or the current
task stays. -/
theorem Good.kernel (good : c.Good) {event : Event} (enabled : c.Enabled (.kernel event))
    (careful : c.Careful (.kernel event)) : (c.after (.kernel event)).Good := by
  obtain ⟨enabled, allowed⟩ := enabled
  have outside : c.CurrentOutside → ∀ t, c.statement t ≠ .waitQueueAdd := by
    intro outside t adding
    have current := (good.adding t adding).2
    rw [outside t current] at adding
    cases adding
  cases event with
  | spawn isUser stack addressSpace =>
      refine good.shift (.spawn _ isUser stack addressSpace) ?_
      exact fun t adding => (outside allowed t adding).elim
  | schedulerStart =>
      have nowhere := good.boot enabled
      have awake : ∀ t, (c.kernel.tasks t).state ≠ .blocked := by
        intro t blocked
        rcases good.blocked t blocked with adding | member
        · rw [nowhere t] at adding
          cases adding
        · have inside := (good.queued t member).2
          rw [nowhere t] at inside
          simp at inside
      refine good.shift (.start awake) ?_
      intro t adding
      rw [nowhere t] at adding
      cases adding
  | schedulerYield =>
      exact good.shift (.yield _) fun t adding => (outside allowed t adding).elim
  | timerHandler =>
      refine good.shift (.timer good.waiting good.control) ?_
      intro t adding
      obtain ⟨blocked, current⟩ := good.adding t adding
      exact timer_stays good.waiting current blocked (careful t current adding)
  | resume =>
      obtain ⟨shifts, current⟩ := Shifts.resume good.returning good.pendingStack
      exact good.shift shifts fun _ _ => current
  | _ => exact allowed.elim

theorem Good.step (good : c.Good) {event : ConsoleEvent} (careful : c.Careful event)
    (step : c.Step event c') : c'.Good := by
  obtain ⟨enabled, rfl⟩ := step
  cases event with
  | kernel event => exact good.kernel enabled careful
  | keyboardHandler scancode => exact good.handler scancode
  | keyboardGetKey =>
      dsimp only [after, keyboardGetKey]
      split
      · exact good.untouched ⟨rfl, rfl, rfl⟩
      · exact good
  | keyboardReadLine maxLen =>
      dsimp only [after]
      split
      · next t current =>
        unfold keyboardReadLine
        split
        · exact good
        · have outside := enabled.2 t current
          have free := good.not_mem (t := t) (by simp [outside]) (by simp [outside])
          exact good.goto (by simp [enabled.1]) free (by simp [outside]) nofun
      · exact good
  | execute node =>
      dsimp only [after]
      split
      · next t current => exact good.execute current enabled careful
      · exact good

theorem bootConsole_good (timerFrequencyHz : Nat) : (bootConsole timerFrequencyHz).Good := by
  constructor <;> simp [bootConsole, bootKernel]

theorem run_good {timerFrequencyHz : Nat} {events : List ConsoleEvent}
    (run : Run (Restrict Step Careful) (bootConsole timerFrequencyHz) events c) : c.Good := by
  have keeps : ∀ c (event : ConsoleEvent) c', c.Good → True →
      Restrict Step Careful c event c' → c'.Good := by
    intro c event c' good _ step
    exact good.step step.1 step.2
  exact run.invariant keeps (bootConsole_good timerFrequencyHz) fun _ _ => trivial

theorem Good.queued_of_away (good : c.Good) {t : TaskId} (away : c.BlockedAway t) :
    t ∈ c.waitQueue := by
  obtain ⟨⟨_, blocked⟩, other⟩ := away
  rcases good.blocked t blocked with adding | member
  · exact (other (good.adding t adding).2).elim
  · exact member

/-- If somebody waits, the first in the queue is not the current task. -/
theorem Good.first_away (good : c.Good) {t first : TaskId} {rest : List TaskId}
    (away : c.BlockedAway t) (queue : c.waitQueue = first :: rest) : c.BlockedAway first := by
  have member : first ∈ c.waitQueue := by simp [queue]
  obtain ⟨blocked, yielding⟩ := good.queued first member
  refine ⟨⟨?_, blocked⟩, ?_⟩
  · rcases yielding with here | here <;> simp [here]
  intro current
  have last := (good.last first current member).2
  have nodup := good.nodup
  rw [queue] at last nodup
  have linked := good.queued_of_away away
  rw [queue] at linked
  rcases List.mem_cons.mp linked with same | later
  · exact away.2 (same ▸ current)
  · cases rest with
    | nil => cases later
    | cons second rest =>
        rw [List.getLast?_cons_cons] at last
        exact (List.nodup_cons.mp nodup).1 (List.mem_of_getLast? last)

theorem Good.sound (good : c.Good) : c.WaitsSound where
  linked t away := List.count_eq_one_of_mem good.nodup (good.queued_of_away away)
  unlinked t outside member := by
    obtain ⟨blocked, yielding⟩ := good.queued t member
    refine outside ⟨?_, blocked⟩
    rcases yielding with here | here <;> simp [here]
  wakes scancode stores := by
    rintro ⟨t, away⟩
    rcases keyboardHandler_cases c scancode with ⟨no, _⟩ | woken
    · exact (no stores).elim
    · rw [woken.kernel]
      have linked := good.queued_of_away away
      cases queue : c.waitQueue with
      | nil =>
          rw [queue] at linked
          cases linked
      | cons first rest =>
          have away' := good.first_away away queue
          refine ⟨first, away', ?_⟩
          simp [waitQueueWake, queue, away'.1.2]

end Console

/-- In every run without one of the three mishaps, the tasks that wait for a key are
linked exactly once, no other task is, and every character wakes one of them. -/
theorem keyboard_waits_sound {timerFrequencyHz : Nat} {events : List ConsoleEvent}
    (run : Run (Restrict Console.Step Console.Careful) (bootConsole timerFrequencyHz) events c) :
    c.WaitsSound :=
  (Console.run_good run).sound

/-- The first of two tasks waits for a key. -/
def readerEvents : List ConsoleEvent :=
  [.kernel (.spawn false (some 65536) true), .kernel (.spawn false (some 98304) true),
    .kernel .schedulerStart, .keyboardReadLine 128, .execute true, .execute true, .execute true,
    .execute true, .execute true]

theorem keyboard_waits_sound_reader :
    ∃ c, Run (Restrict Console.Step Console.Careful) (bootConsole 100) readerEvents c ∧
      c.BlockedAway 0 ∧ c.Stores 0x1E ∧ c.WaitsSound := by
  have along : Along Console.after Console.Enabled (bootConsole 100) readerEvents := by
    decide +kernel
  have careful : Along Console.after Console.Careful (bootConsole 100) readerEvents := by
    refine ⟨trivial, trivial, trivial, trivial, ?_, ?_, ?_, ?_, ?_, trivial⟩ <;> decide +kernel
  have run : Run (Restrict Console.Step Console.Careful) (bootConsole 100) readerEvents
      (readerEvents.foldl Console.after (bootConsole 100)) := by
    apply (Run.of_along (along.and careful)).mono
    intro _ _ _ taken
    exact ⟨taken.1.2, taken.1.1, taken.2⟩
  refine ⟨_, run, ⟨⟨?_, ?_⟩, ?_⟩, ?_, keyboard_waits_sound run⟩
  · decide +kernel
  · decide +kernel
  · decide +kernel
  · unfold Console.Stores
    decide +kernel

/-- A task that waits without being in the queue is not linked. -/
theorem Console.not_linked_of_away {c : Console} {t : TaskId} (away : c.BlockedAway t)
    (empty : c.waitQueue = []) : c.BlockedAway t ∧ c.waitQueue = [] ∧ ¬ c.WaitsSound := by
  refine ⟨away, empty, ?_⟩
  intro sound
  have linked := sound.linked t away
  rw [empty] at linked
  cases linked

/-- The first of two tasks is about to wait for a key.  Its quantum ends after the statement
that marks it, so that it is blocked for good: no key wakes it. -/
theorem marked_reader_not_linked :
    ∃ c, Run Console.Step (bootConsole 100)
        ([.kernel (.spawn false (some 65536) true), .kernel (.spawn false (some 98304) true),
          .kernel .schedulerStart] ++ List.replicate 9 (.kernel .timerHandler) ++
          [.keyboardReadLine 128, .execute true, .execute true, .execute true,
            .kernel .timerHandler]) c ∧
      c.BlockedAway 0 ∧ c.waitQueue = [] ∧ ¬ c.WaitsSound := by
  refine ⟨_, Run.of_along ?_, ?_⟩
  · decide +kernel
  · apply Console.not_linked_of_away
    · exact ⟨⟨by decide +kernel, by decide +kernel⟩, by decide +kernel⟩
    · decide +kernel

end Charis.Sched
