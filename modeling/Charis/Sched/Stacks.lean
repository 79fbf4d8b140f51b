import Charis.Sched.Running

/-!
# The stacks of exited tasks

A task cannot free the stack it runs on, so its exit leaves the stack in a slot, which is
emptied by the next task that comes back from a switch.  A task that runs for the first
time does not come back from one.  If some task does between any two exits, every stack is
freed once and none is lost.
-/

namespace Charis.Sched

open Charis.Lib

variable {k k' : Kernel} {inUse : Bool}

/-- The task has its stack, and goes on in the task itself when it is switched to. -/
structure OwnsStack (k : Kernel) (t : TaskId) : Prop where
  allocated : (k.tasks t).guardPageAddr ≠ 0
  owner : k.stackOwner (k.tasks t).guardPageAddr = some t
  unreleased : k.released t = 0
  returning : ∀ point, (k.tasks t).frame = .suspended point → point = .returning

/-- Every stack belongs to a task that has not exited, is in the slot or has been freed
once. -/
structure Accounted (k : Kernel) : Prop where
  live : ∀ t, (k.tasks t).state = .ready ∨ (k.tasks t).state = .running → OwnsStack k t
  unblocked : ∀ t, (k.tasks t).state ≠ .blocked
  ended : ∀ t, (k.tasks t).state = .zombie ↔ t ∈ k.exited
  pending : ∀ t, k.pendingTask = some t → k.pendingStack ≠ 0 ∧
    k.stackOwner k.pendingStack = some t ∧ k.released t = 0 ∧ k.exited.getLast? = some t
  empty : k.pendingTask = none → k.pendingStack = 0
  freed : ∀ t ∈ k.exited, k.pendingTask = some t ∨ k.released t = 1
  valid : k.invalidFrees = 0
  once : k.exited.Nodup

/-- The processor is on the stack of the current task, which is running or, after its exit,
in the slot. -/
structure Located (k : Kernel) : Prop where
  executing : k.executing = k.current
  running : k.control ≠ .halted → ∀ t, k.current = some t → (k.tasks t).state = .running
  halted : k.control = .halted → ∀ t, k.current = some t → k.pendingTask = some t
  resuming : k.control = .resuming →
    ∃ t, k.current = some t ∧ (k.tasks t).frame = .suspended .returning
  boot : k.control = .boot → k.current = none

theorem OwnsStack.same {t : TaskId} (owns : OwnsStack k t) (task : k'.tasks t = k.tasks t)
    (owner : k'.stackOwner (k.tasks t).guardPageAddr = k.stackOwner (k.tasks t).guardPageAddr)
    (released : k'.released t = k.released t) : OwnsStack k' t := by
  constructor
  · rw [task]
    exact owns.allocated
  · rw [task, owner]
    exact owns.owner
  · rw [released]
    exact owns.unreleased
  · rw [task]
    exact owns.returning

/-- A change of a task that leaves it its stack. -/
theorem Accounted.updateTask (accounted : Accounted k) (t : TaskId) {change : Task → Task}
    (state : (change (k.tasks t)).state = (k.tasks t).state ∨
      ((k.tasks t).state = .ready ∨ (k.tasks t).state = .running) ∧
        ((change (k.tasks t)).state = .ready ∨ (change (k.tasks t)).state = .running))
    (guard : (change (k.tasks t)).guardPageAddr = (k.tasks t).guardPageAddr)
    (frame : (change (k.tasks t)).state = .ready ∨ (change (k.tasks t)).state = .running →
      (∀ point, (k.tasks t).frame = .suspended point → point = .returning) →
      ∀ point, (change (k.tasks t)).frame = .suspended point → point = .returning) :
    Accounted (k.updateTask t change) where
  live u alive := by
    rw [updateTask_tasks] at alive
    by_cases same : u = t
    · subst same
      rw [if_pos rfl] at alive
      have before : (k.tasks u).state = .ready ∨ (k.tasks u).state = .running := by
        rcases state with equal | ⟨alive', _⟩
        · rw [← equal]
          exact alive
        · exact alive'
      have owns := accounted.live u before
      constructor
      · simp only [updateTask_tasks, if_true, guard]
        exact owns.allocated
      · simp only [updateTask_tasks, if_true, guard]
        exact owns.owner
      · exact owns.unreleased
      · simp only [updateTask_tasks, if_true]
        exact frame alive owns.returning
    · rw [if_neg same] at alive
      exact (accounted.live u alive).same (by rw [updateTask_tasks, if_neg same]) rfl rfl
  unblocked u := by
    rw [updateTask_tasks]
    split
    · rcases state with equal | ⟨_, ready | running⟩
      · rw [equal]
        exact accounted.unblocked t
      · rw [ready]
        simp
      · rw [running]
        simp
    · exact accounted.unblocked u
  ended u := by
    rw [updateTask_tasks]
    split
    · next same =>
      subst same
      change _ ↔ u ∈ k.exited
      rw [← accounted.ended u]
      rcases state with equal | ⟨before, after⟩
      · rw [equal]
      · constructor
        · intro zombie
          rw [zombie] at after
          simp at after
        · intro zombie
          rw [zombie] at before
          simp at before
    · exact accounted.ended u
  pending := accounted.pending
  empty := accounted.empty
  freed := accounted.freed
  valid := accounted.valid
  once := accounted.once

/-- The account depends on no more than the tasks, their stacks and the exits. -/
theorem Accounted.same (accounted : Accounted k) (tasks : k'.tasks = k.tasks)
    (stackOwner : k'.stackOwner = k.stackOwner) (released : k'.released = k.released)
    (pendingTask : k'.pendingTask = k.pendingTask) (pendingStack : k'.pendingStack = k.pendingStack)
    (exited : k'.exited = k.exited) (invalidFrees : k'.invalidFrees = k.invalidFrees) :
    Accounted k' := by
  constructor
  · intro t alive
    rw [tasks] at alive
    exact (accounted.live t alive).same (by rw [tasks]) (by rw [stackOwner]) (by rw [released])
  · rw [tasks]
    exact accounted.unblocked
  · rw [tasks, exited]
    exact accounted.ended
  · rw [pendingTask, pendingStack, stackOwner, released, exited]
    exact accounted.pending
  · rw [pendingTask, pendingStack]
    exact accounted.empty
  · rw [exited, pendingTask, released]
    exact accounted.freed
  · rw [invalidFrees]
    exact accounted.valid
  · rw [exited]
    exact accounted.once

theorem switchTo_accounted (accounted : Accounted k) {next : TaskId}
    (ready : (k.tasks next).state = .ready) : Accounted (switchTo k next) := by
  have running : Accounted (k.updateTask next fun task =>
      { task with state := .running, started := true }) :=
    accounted.updateTask next (.inr ⟨.inl ready, .inr rfl⟩) rfl fun _ returning => returning
  exact running.same rfl rfl rfl rfl rfl rfl rfl

theorem switchTo_located (accounted : Accounted k) {next : TaskId}
    (ready : (k.tasks next).state = .ready) : Located (switchTo k next) := by
  have task : (switchTo k next).tasks next =
      { k.tasks next with state := .running, started := true } := by
    simp only [switchTo, contextSwitch, updateTask_tasks, if_true]
  constructor
  · rfl
  · intro _ t current
    have same : next = t := Option.some.inj current
    subst same
    rw [task]
  · intro halted
    simp only [switchTo, contextSwitch] at halted
    split at halted <;> cases halted
  · intro resuming
    refine ⟨next, rfl, ?_⟩
    rw [task]
    simp only [switchTo, contextSwitch, updateTask_tasks, if_true] at resuming
    split at resuming
    · cases resuming
    · cases resuming
    · next point frame _ =>
      have := (accounted.live next (.inl ready)).returning point frame
      rw [frame, this]
    · cases resuming
  · intro boot
    simp only [switchTo, contextSwitch] at boot
    split at boot <;> cases boot

/-- The current task is running and is switched away from in a call that returns to it, or
it has exited. -/
theorem schedule_accounted (accounted : Accounted k) {point : Point}
    (leaves : ∀ c, k.current = some c → (k.tasks c).state = .running ∧ point = .returning ∨
      (k.tasks c).state = .zombie)
    (switched : schedulerSchedule k point = some k') : Accounted k' ∧ Located k' := by
  unfold schedulerSchedule at switched
  split at switched
  · cases switched
  next next found =>
  have ready := findNext_ready found
  split at switched
  · cases switched
  next different =>
  split at switched
  · rw [Option.some.injEq] at switched
    subst switched
    exact ⟨switchTo_accounted accounted ready, switchTo_located accounted ready⟩
  next previous current =>
  rw [Option.some.injEq] at switched
  subst switched
  have other : next ≠ previous := by
    intro same
    exact different (same ▸ current)
  generalize suspended : k.updateTask previous _ = k₁
  have accounted₁ : Accounted k₁ := by
    subst suspended
    rcases leaves previous current with ⟨running, rfl⟩ | zombie
    · apply accounted.updateTask previous
      · exact .inr ⟨.inr running, .inl (by simp [running])⟩
      · rfl
      · intro _ _ point frame
        exact (Frame.suspended.inj frame).symm
    · apply accounted.updateTask previous
      · exact .inl (by simp [zombie])
      · rfl
      · intro alive
        simp [zombie] at alive
  have ready₁ : (k₁.tasks next).state = .ready := by
    rw [← suspended, updateTask_tasks, if_neg other]
    exact ready
  exact ⟨switchTo_accounted accounted₁ ready₁, switchTo_located accounted₁ ready₁⟩

theorem wakeSleepers_tasks (accounted : Accounted k) (now : Nat) :
    (taskWakeSleepers k now).tasks = k.tasks := by
  funext t
  simp only [taskWakeSleepers]
  rw [if_neg]
  intro due
  exact accounted.unblocked t due.1

theorem Accounted.pending_zombie (accounted : Accounted k) {t : TaskId}
    (pending : k.pendingTask = some t) : (k.tasks t).state = .zombie := by
  rw [accounted.ended]
  exact List.mem_of_getLast? (accounted.pending t pending).2.2.2

theorem Located.same (located : Located k)
    (tasks : ∀ t, k.current = some t → (k'.tasks t).state = (k.tasks t).state ∧
      (k'.tasks t).frame = (k.tasks t).frame)
    (executing : k'.executing = k.executing)
    (current : k'.current = k.current) (control : k'.control = k.control)
    (pendingTask : k'.pendingTask = k.pendingTask) : Located k' := by
  constructor
  · rw [executing, current]
    exact located.executing
  · intro unhalted t now
    rw [control] at unhalted
    rw [current] at now
    rw [(tasks t now).1]
    exact located.running unhalted t now
  · intro halted t now
    rw [control] at halted
    rw [current] at now
    rw [pendingTask]
    exact located.halted halted t now
  · intro resuming
    rw [control] at resuming
    obtain ⟨t, now, frame⟩ := located.resuming resuming
    exact ⟨t, current.trans now, (tasks t now).2.trans frame⟩
  · intro boot
    rw [control] at boot
    exact current.trans (located.boot boot)

/-- A change of an unused slot and of a block that was free. -/
theorem Accounted.slot (accounted : Accounted k) {t : TaskId} {block : Nat}
    (unused : (k.tasks t).state = .unused) (free : k.stackOwner block = none)
    (tasks : ∀ u, u ≠ t → k'.tasks u = k.tasks u)
    (owner : ∀ stack, stack ≠ block → k'.stackOwner stack = k.stackOwner stack)
    (released : ∀ u, u ≠ t → k'.released u = k.released u)
    (same : k'.pendingTask = k.pendingTask ∧ k'.pendingStack = k.pendingStack ∧
      k'.exited = k.exited ∧ k'.invalidFrees = k.invalidFrees)
    (slot : (k'.tasks t).state = .unused ∨ (k'.tasks t).state = .ready ∧ OwnsStack k' t) :
    Accounted k' := by
  obtain ⟨pendingTask, pendingStack, exited, invalidFrees⟩ := same
  have outside : t ∉ k.exited := by
    intro member
    have zombie := (accounted.ended t).mpr member
    rw [unused] at zombie
    cases zombie
  have other : ∀ u ∈ k.exited, u ≠ t := fun u member same => outside (same ▸ member)
  have taken : ∀ stack u, k.stackOwner stack = some u → stack ≠ block := by
    intro stack u owned same
    rw [same, free] at owned
    cases owned
  constructor
  · intro u alive
    by_cases same : u = t
    · subst same
      rcases slot with unused' | ⟨_, owns⟩
      · rw [unused'] at alive
        simp at alive
      · exact owns
    · rw [tasks u same] at alive
      have owns := accounted.live u alive
      exact owns.same (tasks u same) (owner _ (taken _ u owns.owner)) (released u same)
  · intro u
    by_cases same : u = t
    · subst same
      rcases slot with unused' | ⟨ready, _⟩
      · rw [unused']
        simp
      · rw [ready]
        simp
    · rw [tasks u same]
      exact accounted.unblocked u
  · intro u
    rw [exited]
    by_cases same : u = t
    · subst same
      constructor
      · intro zombie
        rcases slot with unused' | ⟨ready, _⟩
        · rw [unused'] at zombie
          cases zombie
        · rw [ready] at zombie
          cases zombie
      · intro member
        exact absurd member outside
    · rw [tasks u same]
      exact accounted.ended u
  · intro u pending
    rw [pendingTask] at pending
    obtain ⟨filled, owned, unreleased, last⟩ := accounted.pending u pending
    rw [pendingStack, exited, owner _ (taken _ u owned),
      released u (other u (List.mem_of_getLast? last))]
    exact ⟨filled, owned, unreleased, last⟩
  · rw [pendingTask, pendingStack]
    exact accounted.empty
  · intro u member
    rw [exited] at member
    rw [pendingTask, released u (other u member)]
    exact accounted.freed u member
  · rw [invalidFrees]
    exact accounted.valid
  · rw [exited]
    exact accounted.once

theorem kfree_kmalloc (k : Kernel) (t : TaskId) (isUser : Bool) (block : Nat) :
    kfree (taskInitCommon (kmalloc k t block) t isUser block) block =
      { taskInitCommon (kmalloc k t block) t isUser block with
        stackOwner := Function.update (Function.update k.stackOwner block (some t)) block none
        released := Function.update (Function.update k.released t 0) t 1 } := by
  have owner : (taskInitCommon (kmalloc k t block) t isUser block).stackOwner block = some t := by
    simp [taskInitCommon, kmalloc, Kernel.updateTask]
  unfold kfree
  rw [owner]
  simp [taskInitCommon, kmalloc, Kernel.updateTask]

theorem spawn_accounted (accounted : Accounted k) (isUser : Bool) {stack : Option Nat}
    (addressSpace : Bool)
    (free : ∀ block ∈ stack, block ≠ 0 ∧ k.stackOwner block = none) :
    Accounted (spawn k isUser stack addressSpace) := by
  unfold spawn taskCreate
  cases allocated : taskAllocate k with
  | none => exact accounted
  | some t =>
  have unused := taskAllocate_unused allocated
  cases stack with
  | none => exact accounted
  | some block =>
  obtain ⟨positive, free⟩ := free block rfl
  dsimp only
  by_cases failed : (isUser && !addressSpace) = true
  · rw [if_pos failed, kfree_kmalloc]
    refine accounted.slot unused free ?_ ?_ ?_ ⟨rfl, rfl, rfl, rfl⟩ (.inl ?_)
    · intro u other
      simp [taskInitCommon, kmalloc, other]
    · intro stack other
      simp [Kernel.updateTask, other]
    · intro u other
      simp [Kernel.updateTask, other]
    · simp
  rw [if_neg failed]
  refine accounted.slot unused free ?_ ?_ ?_ ⟨rfl, rfl, rfl, rfl⟩ (.inr ⟨?_, ?_⟩)
  · intro u other
    simp [schedulerAddTask, taskInitCommon, kmalloc, other]
  · intro stack other
    simp [schedulerAddTask, taskInitCommon, kmalloc, Kernel.updateTask,
      Kernel.setState, other]
  · intro u other
    simp [schedulerAddTask, taskInitCommon, kmalloc, Kernel.updateTask,
      Kernel.setState, other]
  · simp [schedulerAddTask]
  · constructor
    · simp [schedulerAddTask, taskInitCommon, positive]
    · simp [schedulerAddTask, taskInitCommon, kmalloc, Kernel.updateTask,
        Kernel.setState]
    · simp [schedulerAddTask, taskInitCommon, kmalloc, Kernel.updateTask,
        Kernel.setState]
    · intro point frame
      cases isUser <;> simp [schedulerAddTask] at frame

theorem spawn_located (located : Located k) (control : k.control = .boot ∨ k.control = .task)
    (isUser : Bool) (stack : Option Nat) (addressSpace : Bool) :
    Located (spawn k isUser stack addressSpace) := by
  have used : ∀ u t, k.current = some u → (k.tasks t).state = .unused → u ≠ t := by
    intro u t current unused same
    have running := located.running (by rcases control with now | now <;> simp [now]) u current
    rw [same, unused] at running
    cases running
  rcases spawn_cases k isUser stack addressSpace with same | ⟨t, spawned⟩
  · rwa [same]
  obtain ⟨_, _, _, _, _, _, same⟩ := spawned.same
  refine located.same ?_ (by rw [same]) (by rw [same]) (by rw [same]) (by rw [same])
  intro u current
  rw [spawned.others u (used u t current spawned.unused)]
  exact ⟨rfl, rfl⟩

/-! ## Exits -/

/-- A task that exits with an empty slot puts its stack there. -/
theorem deferRelease_accounted (accounted : Accounted k) (empty : k.pendingTask = none) {c : TaskId}
    (running : (k.tasks c).state = .running) (status : Nat) :
    ∃ k', taskDeferRelease (k.updateTask c ({ · with exitCode := status })) c = k' ∧
      Accounted { k' with exited := k'.exited ++ [c] } ∧ k'.current = k.current ∧
      k'.executing = k.executing ∧ k'.pendingTask = some c ∧ (k'.tasks c).state = .zombie := by
  have owns := accounted.live c (.inr running)
  refine ⟨_, rfl, ?_⟩
  have outside : c ∉ k.exited := by
    intro member
    have zombie := (accounted.ended c).mpr member
    rw [running] at zombie
    cases zombie
  have parks : (((k.updateTask c ({ · with exitCode := status })).tasks c).stackBase ≠ 0 ∨
      ((k.updateTask c ({ · with exitCode := status })).tasks c).guardPageAddr ≠ 0) := by
    right
    simpa using owns.allocated
  have slot : (if ((k.updateTask c ({ · with exitCode := status })).tasks c).guardPageAddr ≠ 0
      then ((k.updateTask c ({ · with exitCode := status })).tasks c).guardPageAddr
      else ((k.updateTask c ({ · with exitCode := status })).tasks c).stackBase) =
      (k.tasks c).guardPageAddr := by
    simp [owns.allocated]
  unfold taskDeferRelease
  dsimp only
  rw [if_pos parks, slot]
  refine ⟨?_, rfl, rfl, rfl, by simp⟩
  constructor
  · intro u alive
    by_cases same : u = c
    · subst same
      simp at alive
    · simp only [setState_tasks, updateTask_tasks, if_neg same] at alive
      refine (accounted.live u alive).same ?_ rfl rfl
      simp only [setState_tasks, updateTask_tasks, if_neg same]
  · intro u
    by_cases same : u = c
    · subst same
      simp
    · simp only [setState_tasks, updateTask_tasks, if_neg same]
      exact accounted.unblocked u
  · intro u
    change _ ↔ u ∈ k.exited ++ [c]
    rw [List.mem_append, List.mem_singleton, ← accounted.ended u]
    by_cases same : u = c
    · subst same
      simp
    · simp [same]
  · intro u pending
    have same : c = u := Option.some.inj pending
    subst same
    exact ⟨owns.allocated, owns.owner, owns.unreleased, by simp⟩
  · intro none
    cases none
  · intro u member
    change u ∈ k.exited ++ [c] at member
    rw [List.mem_append, List.mem_singleton] at member
    rcases member with before | same
    · rcases accounted.freed u before with pending | released
      · rw [empty] at pending
        cases pending
      · exact .inr released
    · exact .inl (same ▸ rfl)
  · exact accounted.valid
  · change (k.exited ++ [c]).Nodup
    rw [List.nodup_append]
    refine ⟨accounted.once, List.nodup_singleton c, ?_⟩
    intro u member v single same
    rw [List.mem_singleton] at single
    exact outside (single ▸ same ▸ member)

/-- What is in the slot is freed once. -/
theorem releasePending_accounted (accounted : Accounted k) :
    Accounted (taskReleasePending k) ∧ (taskReleasePending k).pendingTask = none := by
  cases slot : k.pendingTask with
  | none =>
      have := accounted.empty slot
      unfold taskReleasePending
      rw [if_pos this]
      exact ⟨accounted, slot⟩
  | some t =>
  obtain ⟨filled, owned, unreleased, last⟩ := accounted.pending t slot
  have zombie := accounted.pending_zombie slot
  have freed : taskReleasePending k =
      ({ k with
        pendingStack := 0
        pendingTask := none
        stackOwner := Function.update k.stackOwner k.pendingStack none
        released := Function.update k.released t 1 } : Kernel).setState t .zombie := by
    simp only [taskReleasePending, if_neg filled, slot, kfree, owned, unreleased]
  rw [freed]
  refine ⟨?_, rfl⟩
  constructor
  · intro u alive
    by_cases same : u = t
    · subst same
      simp at alive
    · rw [setState_tasks, if_neg same] at alive
      have owns := accounted.live u alive
      refine owns.same (by rw [setState_tasks, if_neg same]) ?_ ?_
      · apply Function.update_of_ne
        intro equal
        have := owns.owner
        rw [equal, owned, Option.some.injEq] at this
        exact same this.symm
      · exact Function.update_of_ne same _ _
  · intro u
    by_cases same : u = t
    · subst same
      simp
    · rw [setState_tasks, if_neg same]
      exact accounted.unblocked u
  · intro u
    change _ ↔ u ∈ k.exited
    rw [← accounted.ended u]
    by_cases same : u = t
    · subst same
      simp [zombie]
    · rw [setState_tasks, if_neg same]
  · intro u pending
    cases pending
  · intro _
    rfl
  · intro u member
    right
    change Function.update k.released t 1 u = 1
    by_cases same : u = t
    · rw [same, Function.update_self]
    · rw [Function.update_of_ne same]
      rcases accounted.freed u member with pending | released
      · rw [slot, Option.some.injEq] at pending
        exact absurd pending.symm same
      · exact released
  · exact accounted.valid
  · exact accounted.once

theorem resume_accounted (accounted : Accounted k) (located : Located k)
    (control : k.control = .resuming) :
    Accounted (resume k) ∧ Located (resume k) ∧ (resume k).pendingTask = none ∧
      (resume k).current ≠ none := by
  obtain ⟨t, current, frame⟩ := located.resuming control
  have running := located.running (by rw [control]; simp) t current
  have released := releasePending_released k
  obtain ⟨accounted', none⟩ := releasePending_accounted accounted
  have other : k.pendingTask ≠ some t := by
    intro pending
    have zombie := accounted.pending_zombie pending
    rw [running] at zombie
    cases zombie
  unfold resume
  simp only [current, frame]
  refine ⟨accounted'.same rfl rfl rfl rfl rfl rfl rfl, ?_, none, ?_⟩
  swap
  · rw [released.current, current]
    simp
  constructor
  · exact released.executing.trans (located.executing.trans released.current.symm)
  · intro _ u now
    have same : some t = some u := current.symm.trans (released.current.symm.trans now)
    rw [Option.some.injEq] at same
    subst same
    dsimp only
    rw [released.other t other]
    exact running
  · simp
  · simp
  · simp

/-! ## Runs -/

/-- Creating tasks, running them, switching between them and ending them. -/
def Event.plain : Event → Bool
  | .spawn _ _ _ | .schedulerStart | .schedulerYield | .timerHandler
  | .taskExitWithStatus _ | .resume => true
  | _ => false

/-- A task has exited, and since then the kernel has not come back to a task that had been
switched away from. -/
def parked (events : List Event) : Bool :=
  events.foldl (fun parked event =>
    match event with
    | .taskExitWithStatus _ => true
    | .resume => false
    | _ => parked) false

/-- Between any two exits the kernel comes back to a task that had been switched away
from. -/
def Spaced (events : List Event) : Prop :=
  ∀ before status after, events = before ++ .taskExitWithStatus status :: after →
    parked before = false

theorem spaced_iff (events : List Event) :
    Spaced events ↔ ∀ count < events.length,
      match events[count]? with
      | some (.taskExitWithStatus _) => parked (events.take count) = false
      | _ => True := by
  constructor
  · intro spaced count inside
    split
    · next status found =>
      apply spaced _ status (events.drop (count + 1))
      rw [List.getElem?_eq_getElem inside, Option.some.injEq] at found
      rw [← found, List.getElem_cons_drop, List.take_append_drop]
    · trivial
  · intro all before status after equal
    subst equal
    have now := all before.length (by simp)
    simpa using now

instance (events : List Event) : Decidable (Spaced events) :=
  haveI : ∀ event : Option Event, ∀ before : List Event, Decidable (match event with
      | some (.taskExitWithStatus _) => parked before = false
      | _ => True) := by
    intro event before
    split <;> infer_instance
  decidable_of_iff _ (spaced_iff events).symm

theorem parked_append (events : List Event) (event : Event) :
    parked (events ++ [event]) =
      match event with
      | .taskExitWithStatus _ => true
      | .resume => false
      | _ => parked events := by
  simp only [parked, List.foldl_append, List.foldl_cons, List.foldl_nil]

theorem Spaced.init {events : List Event} {event : Event} (spaced : Spaced (events ++ [event])) :
    Spaced events := by
  intro before status after equal
  exact spaced before status (after ++ [event]) (by rw [equal]; simp)

theorem Spaced.last {events : List Event} {status : Nat}
    (spaced : Spaced (events ++ [.taskExitWithStatus status])) : parked events = false :=
  spaced events status [] rfl

/-- What holds in a run, with whether the slot is in use. -/
structure Kept (k : Kernel) (inUse : Bool) : Prop where
  accounted : Accounted k
  located : Located k
  unstarted : k.current = none → ∀ t ∈ k.order, (k.tasks t).state = .ready
  empty : inUse = false → k.pendingTask = none
  filled : inUse = true → k.pendingTask ≠ none ∨ k.control = .halted ∧ k.current = none

theorem bootKernel_kept (timerFrequencyHz : Nat) : Kept (bootKernel timerFrequencyHz) false := by
  refine ⟨?_, ?_, by simp [bootKernel], by simp [bootKernel], by simp⟩
  · constructor <;> simp [bootKernel]
  · constructor <;> simp [bootKernel]

theorem schedule_same {point : Point} (switched : schedulerSchedule k point = some k') :
    k'.current ≠ none ∧ k'.pendingTask = k.pendingTask ∧ k'.released = k.released ∧
      k'.exited = k.exited := by
  unfold schedulerSchedule at switched
  split at switched
  · cases switched
  split at switched
  · cases switched
  split at switched
  · rw [Option.some.injEq] at switched
    subst switched
    exact ⟨Option.some_ne_none _, rfl, rfl, rfl⟩
  · rw [Option.some.injEq] at switched
    subst switched
    exact ⟨Option.some_ne_none _, rfl, rfl, rfl⟩

/-- A switch keeps the slot as it is. -/
theorem schedule_kept (kept : Kept k inUse) {point : Point}
    (leaves : ∀ c, k.current = some c → (k.tasks c).state = .running ∧ point = .returning ∨
      (k.tasks c).state = .zombie) (started : k.current ≠ none)
    (switched : schedulerSchedule k point = some k') : Kept k' inUse := by
  obtain ⟨accounted, located⟩ := schedule_accounted kept.accounted leaves switched
  obtain ⟨current, pendingTask, _, _⟩ := schedule_same switched
  refine ⟨accounted, located, fun none => absurd none current, ?_, ?_⟩
  · intro unparked
    rw [pendingTask]
    exact kept.empty unparked
  · intro isParked
    rw [pendingTask]
    rcases kept.filled isParked with filled | ⟨_, none⟩
    · exact .inl filled
    · exact absurd none started

theorem yield_kept (kept : Kept k inUse) (control : k.control = .boot ∨ k.control = .task) :
    Kept ((schedulerYield k .returning).getD k) inUse := by
  have running := kept.located.running (by rcases control with now | now <;> simp [now])
  unfold schedulerYield
  split
  · exact kept
  next c current =>
  cases switched : schedulerSchedule k .returning with
  | none => exact kept
  | some k' =>
      apply schedule_kept kept _ (by rw [current]; simp) switched
      intro c' current'
      exact .inl ⟨running c' current', rfl⟩

theorem start_kept (kept : Kept k inUse) (control : k.control = .boot) :
    Kept (schedulerStart k) inUse := by
  have none := kept.located.boot control
  unfold schedulerStart
  split
  · exact kept
  next next rest order =>
  have ready := kept.unstarted none next (by rw [order]; simp)
  refine ⟨switchTo_accounted kept.accounted ready, switchTo_located kept.accounted ready, ?_,
    kept.empty, ?_⟩
  · intro stopped
    cases stopped
  · intro isParked
    rcases kept.filled isParked with filled | ⟨halted, _⟩
    · exact .inl filled
    · rw [control] at halted
      cases halted

theorem spawn_same (k : Kernel) (isUser : Bool) (stack : Option Nat) (addressSpace : Bool) :
    (spawn k isUser stack addressSpace).current = k.current ∧
      (spawn k isUser stack addressSpace).control = k.control ∧
      (spawn k isUser stack addressSpace).pendingTask = k.pendingTask ∧
      ∀ t ∈ (spawn k isUser stack addressSpace).order,
        ((spawn k isUser stack addressSpace).tasks t).state = .ready ∨
          t ∈ k.order ∧
            ((spawn k isUser stack addressSpace).tasks t = k.tasks t ∨
              (k.tasks t).state = .unused) := by
  rcases spawn_cases k isUser stack addressSpace with same | ⟨t, spawned⟩
  · rw [same]
    exact ⟨rfl, rfl, rfl, fun t member => .inr ⟨member, .inl rfl⟩⟩
  obtain ⟨_, _, _, _, _, _, same⟩ := spawned.same
  refine ⟨by rw [same], by rw [same], by rw [same], fun u member => ?_⟩
  by_cases here : u = t
  · subst here
    rcases spawned.outcome with ⟨-, -, order⟩ | ⟨ready, -, -⟩
    · exact .inr ⟨order ▸ member, .inr spawned.unused⟩
    · exact .inl ready
  · refine .inr ⟨?_, .inl (spawned.others u here)⟩
    rcases spawned.outcome with ⟨-, -, order⟩ | ⟨-, -, order⟩
    · exact order ▸ member
    · rw [order, List.mem_append, List.mem_singleton] at member
      exact member.resolve_right here

theorem spawn_kept (kept : Kept k inUse) (control : k.control = .boot ∨ k.control = .task)
    (isUser : Bool) {stack : Option Nat} (addressSpace : Bool)
    (free : ∀ block ∈ stack, block ≠ 0 ∧ k.stackOwner block = none) :
    Kept (spawn k isUser stack addressSpace) inUse := by
  obtain ⟨current, control', pendingTask, tasks⟩ := spawn_same k isUser stack addressSpace
  refine ⟨spawn_accounted kept.accounted isUser addressSpace free,
    spawn_located kept.located control isUser stack addressSpace, ?_, ?_, ?_⟩
  · intro none t member
    rw [current] at none
    rcases tasks t member with ready | ⟨before, same | unused⟩
    · exact ready
    · rw [same]
      exact kept.unstarted none t before
    · have ready := kept.unstarted none t before
      rw [unused] at ready
      cases ready
  · intro unparked
    exact pendingTask.trans (kept.empty unparked)
  · intro isParked
    rw [pendingTask, control', current]
    exact kept.filled isParked

/-- A change of what neither the stacks nor the place of the processor depend on. -/
theorem Kept.same (kept : Kept k inUse) (accounted : Accounted k')
    (tasks : ∀ t, (k'.tasks t).state = (k.tasks t).state ∧ (k'.tasks t).frame = (k.tasks t).frame)
    (order : k'.order = k.order) (executing : k'.executing = k.executing)
    (current : k'.current = k.current) (control : k'.control = k.control)
    (pendingTask : k'.pendingTask = k.pendingTask) : Kept k' inUse := by
  refine ⟨accounted, kept.located.same (fun t _ => tasks t) executing current control pendingTask,
    ?_, ?_, ?_⟩
  · intro none t member
    rw [current] at none
    rw [order] at member
    rw [(tasks t).1]
    exact kept.unstarted none t member
  · intro unparked
    exact pendingTask.trans (kept.empty unparked)
  · intro isParked
    rw [pendingTask, control, current]
    exact kept.filled isParked

theorem timer_kept (kept : Kept k inUse) : Kept (timerHandler k) inUse := by
  unfold timerHandler
  generalize ticked : ({ k with timerTicks := _ } : Kernel) = counted
  have accounted₁ : Accounted counted := by
    subst ticked
    exact kept.accounted.same rfl rfl rfl rfl rfl rfl rfl
  have kept₁ : Kept counted inUse := by
    subst ticked
    exact kept.same accounted₁ (fun _ => ⟨rfl, rfl⟩) rfl rfl rfl rfl rfl
  have tasks := wakeSleepers_tasks accounted₁ (timerGetMs counted)
  have kept₂ : Kept (taskWakeSleepers counted (timerGetMs counted)) inUse :=
    kept₁.same (accounted₁.same tasks rfl rfl rfl rfl rfl rfl) (fun _ => by rw [tasks]; simp)
      rfl rfl rfl rfl rfl
  dsimp only
  generalize taskWakeSleepers counted _ = woken at kept₂ ⊢
  split
  · exact kept₂
  next c current =>
  have counts : ∀ quantum,
      Kept (woken.updateTask c ({ · with remainingQuantum := quantum })) inUse := by
    intro quantum
    refine kept₂.same ?_ ?_ rfl rfl rfl rfl rfl
    · exact kept₂.accounted.updateTask c (.inl rfl) rfl fun _ returning => returning
    · intro t
      rw [updateTask_tasks]
      split
      · next same => simp [same]
      · simp
  split
  · have reset := counts taskDefaultQuantum
    have current₁ : (woken.updateTask c
      ({ · with remainingQuantum := taskDefaultQuantum })).current = some c := current
    generalize woken.updateTask c _ = k₁ at reset current₁ ⊢
    cases switched : schedulerSchedule k₁
      (if k₁.control = .halted then .exiting else .returning) with
    | none => exact reset
    | some k₂ =>
        apply schedule_kept reset _ (by rw [current₁]; simp) switched
        intro c' current'
        by_cases halted : k₁.control = .halted
        · exact .inr (reset.accounted.pending_zombie (reset.located.halted halted c' current'))
        · exact .inl ⟨reset.located.running halted c' current', if_neg halted⟩
  · exact counts _

theorem exit_kept (kept : Kept k inUse) (control : k.control = .boot ∨ k.control = .task)
    (empty : k.pendingTask = none) (status : Nat) : Kept (taskExitWithStatus k status) true := by
  have running := kept.located.running (by rcases control with now | now <;> simp [now])
  unfold taskExitWithStatus
  split
  · next none =>
    have stopped : Located { k with control := .halted } := by
      refine ⟨kept.located.executing, by simp, ?_, by simp, by simp⟩
      intro _ t current
      cases none.symm.trans current
    exact ⟨kept.accounted.same rfl rfl rfl rfl rfl rfl rfl, stopped, kept.unstarted,
      fun _ => empty, fun _ => .inr ⟨rfl, none⟩⟩
  next c current =>
  obtain ⟨k₁, slot, accounted, current₁, executing₁, pending₁, zombie₁⟩ :=
    deferRelease_accounted kept.accounted empty (running c current) status
  simp only [slot]
  have now : k₁.current = some c := current₁.trans current
  cases switched : schedulerYield { k₁ with exited := k₁.exited ++ [c] } .exiting with
  | some k₂ =>
      have switched := schedule_of_yield switched
      have leaves : ∀ c', k₁.current = some c' → (k₁.tasks c').state = .running ∧
          Point.exiting = .returning ∨ (k₁.tasks c').state = .zombie := by
        intro c' current'
        rw [now, Option.some.injEq] at current'
        exact .inr (current' ▸ zombie₁)
      obtain ⟨accounted₂, located₂⟩ := schedule_accounted accounted leaves switched
      obtain ⟨started, pending₂, _, _⟩ := schedule_same switched
      refine ⟨accounted₂, located₂, fun none => absurd none started, by simp, fun _ => .inl ?_⟩
      rw [Option.getD_some, pending₂]
      simp [pending₁]
  | none =>
  have stopped : Located { k₁ with exited := k₁.exited ++ [c], control := .halted } := by
    refine ⟨executing₁.trans (kept.located.executing.trans current₁.symm), by simp, ?_,
      by simp, by simp⟩
    intro _ t current'
    exact pending₁.trans (now.symm.trans current')
  refine ⟨accounted.same rfl rfl rfl rfl rfl rfl rfl, stopped, ?_, by simp,
    fun _ => .inl (by simp [pending₁])⟩
  intro none
  cases now.symm.trans none

theorem resume_kept (kept : Kept k inUse) (control : k.control = .resuming) :
    Kept (resume k) false := by
  obtain ⟨accounted, located, none, started⟩ :=
    resume_accounted kept.accounted kept.located control
  exact ⟨accounted, located, fun stopped => absurd stopped started, fun _ => none, by simp⟩

theorem step_kept {events : List Event} (kept : Kept k (parked events)) {event : Event}
    (plain : event.plain = true) (spaced : Spaced (events ++ [event])) (step : Step k event k') :
    Kept k' (parked (events ++ [event])) := by
  obtain ⟨enabled, rfl⟩ := step
  rw [parked_append]
  cases event with
  | spawn isUser stack addressSpace =>
      exact spawn_kept kept enabled.1 isUser addressSpace enabled.2
  | schedulerStart => exact start_kept kept enabled
  | schedulerYield => exact yield_kept kept enabled
  | timerHandler => exact timer_kept kept
  | taskExitWithStatus status => exact exit_kept kept enabled (kept.empty spaced.last) status
  | resume => exact resume_kept kept enabled
  | _ => cases plain

theorem run_kept {timerFrequencyHz : Nat} {events : List Event}
    (run : Run (Restrict Step fun _ event => event.plain = true)
      (bootKernel timerFrequencyHz) events k)
    (spaced : Spaced events) : Kept k (parked events) := by
  induction run with
  | start => exact bootKernel_kept timerFrequencyHz
  | next run last ih => exact step_kept (ih spaced.init) last.1 spaced last.2

/-- Every task that has exited has its stack in the slot or has had it freed once, at the
latest when another task has exited; nothing else has been freed, and not the stack that
is in use. -/
structure Kernel.FreesStacks (k : Kernel) : Prop where
  /-- No pointer is freed that is not an allocated stack. -/
  valid : k.invalidFrees = 0
  executing : ∀ t, k.executing = some t → k.released t = 0
  freed : ∀ before t after, k.exited = before ++ t :: after → 2 ≤ after.length →
    k.released t = 1
  kept : ∀ t ∈ k.exited, k.released t = 1 ∨
    k.released t = 0 ∧ k.pendingTask = some t ∧ k.stackOwner k.pendingStack = some t

theorem Kept.freesStacks (kept : Kept k inUse) : k.FreesStacks := by
  have accounted := kept.accounted
  have located := kept.located
  constructor
  · exact accounted.valid
  · intro t executing
    have current := located.executing.symm.trans executing
    by_cases halted : k.control = .halted
    · exact (accounted.pending t (located.halted halted t current)).2.2.1
    · exact (accounted.live t (.inr (located.running halted t current))).unreleased
  · intro before t after exited two
    rcases accounted.freed t (by rw [exited]; simp) with pending | released
    · -- the task in the slot is the last one
      have last := (accounted.pending t pending).2.2.2
      have once := accounted.once
      rw [exited] at last once
      have later : after ≠ [] := by
        intro none
        rw [none] at two
        simp at two
      rw [List.getLast?_append, List.getLast?_cons, List.getLast?_eq_some_getLast later] at last
      simp only [Option.getD_some, Option.some_or, Option.some.injEq] at last
      have member := List.getLast_mem later
      rw [last] at member
      rw [List.nodup_append, List.nodup_cons] at once
      exact absurd member once.2.1.1
    · exact released
  · intro t member
    rcases accounted.freed t member with pending | released
    · obtain ⟨_, owned, unreleased, _⟩ := accounted.pending t pending
      exact .inr ⟨unreleased, pending, owned⟩
    · exact .inl released

theorem exit_overwrites (kept : Kept k true) (control : k.control = .boot ∨ k.control = .task)
    (started : k.current ≠ none) (status : Nat) :
    ¬ (taskExitWithStatus k status).FreesStacks := by
  obtain ⟨c, current⟩ := Option.ne_none_iff_exists'.mp started
  have unhalted : k.control ≠ .halted := by rcases control with now | now <;> simp [now]
  have running := kept.located.running unhalted c current
  have owns := kept.accounted.live c (.inr running)
  obtain ⟨t, slot⟩ : ∃ t, k.pendingTask = some t := by
    rcases kept.filled rfl with filled | ⟨halted, _⟩
    · exact Option.ne_none_iff_exists'.mp filled
    · contradiction
  have zombie := kept.accounted.pending_zombie slot
  have other : c ≠ t := by
    intro same
    rw [← same, running] at zombie
    cases zombie
  have after : (taskExitWithStatus k status).pendingTask = some c ∧
      (taskExitWithStatus k status).released = k.released ∧
      (taskExitWithStatus k status).exited = k.exited ++ [c] := by
    unfold taskExitWithStatus
    simp only [current]
    generalize parks : taskDeferRelease _ c = k₁
    have same : k₁.pendingTask = some c ∧ k₁.released = k.released ∧ k₁.exited = k.exited := by
      subst parks
      unfold taskDeferRelease
      dsimp only
      rw [if_pos (.inr (by simpa using owns.allocated))]
      exact ⟨rfl, rfl, rfl⟩
    cases switched : schedulerYield { k₁ with exited := k₁.exited ++ [c] } .exiting with
    | none => exact ⟨same.1, same.2.1, by simp [same.2.2]⟩
    | some k₂ =>
        obtain ⟨_, pendingTask, released, exited⟩ := schedule_same (schedule_of_yield switched)
        exact ⟨pendingTask.trans same.1, released.trans same.2.1, exited.trans (by simp [same.2.2])⟩
  intro frees
  have member : t ∈ (taskExitWithStatus k status).exited := by
    rw [after.2.2]
    exact List.mem_append_left _ ((kept.accounted.ended t).mp zombie)
  have unreleased := (kept.accounted.pending t slot).2.2.1
  rcases frees.kept t member with released | ⟨_, pending, _⟩
  · rw [after.2.1, unreleased] at released
    cases released
  · rw [after.1, Option.some.injEq] at pending
    exact other pending

/-- If the kernel comes back to a task that had been switched away from between any two
exits, the stacks of exited tasks are freed as they should be; the next exit that does not
wait for this loses a stack. -/
theorem exited_stacks_freed_once {timerFrequencyHz : Nat} {events : List Event}
    (run : Run (Restrict Step fun _ event => event.plain = true)
      (bootKernel timerFrequencyHz) events k)
    (spaced : Spaced events) :
    k.FreesStacks ∧
      ∀ status k', Step k (.taskExitWithStatus status) k' → k.current ≠ none →
        ¬ Spaced (events ++ [.taskExitWithStatus status]) → ¬ k'.FreesStacks := by
  have kept := run_kept run spaced
  refine ⟨kept.freesStacks, ?_⟩
  rintro status k' ⟨enabled, rfl⟩ started close
  have used : parked events = true := by
    by_contra unused
    rw [Bool.not_eq_true] at unused
    apply close
    intro before status' after equal
    rcases List.eq_nil_or_concat after with rfl | ⟨after', last, rfl⟩
    · obtain ⟨rfl, _⟩ := List.append_inj' equal rfl
      exact unused
    · rw [List.concat_eq_append, ← List.cons_append, ← List.append_assoc] at equal
      obtain ⟨earlier, _⟩ := List.append_inj' equal rfl
      exact spaced before status' after' earlier
  exact exit_overwrites (used ▸ kept) enabled started status

/-- Three tasks of which the first two exit, with a task that comes back in between. -/
def spacedEvents : List Event :=
  [.spawn false (some 65536) true, .spawn false (some 98304) true, .spawn false (some 131072) true,
    .schedulerStart, .schedulerYield, .schedulerYield, .schedulerYield, .resume,
    .taskExitWithStatus 0, .resume, .taskExitWithStatus 0, .resume]

theorem exited_stacks_freed_once_spaced :
    ∃ k, Run (Restrict Step fun _ event => event.plain = true) (bootKernel 100) spacedEvents k ∧
      Spaced spacedEvents ∧ k.exited = [0, 1] ∧ k.FreesStacks := by
  have along : Along Kernel.after (fun k event => event.plain = true ∧ k.Enabled event)
      (bootKernel 100) spacedEvents := by
    decide +kernel
  have run : Run (Restrict Step fun _ event => event.plain = true) (bootKernel 100) spacedEvents
      (spacedEvents.foldl Kernel.after (bootKernel 100)) := by
    apply (Run.of_along along).mono
    intro _ _ _ taken
    exact ⟨taken.1.1, taken.1.2, taken.2⟩
  have spaced : Spaced spacedEvents := by decide +kernel
  exact ⟨_, run, spaced, by decide +kernel, (exited_stacks_freed_once run spaced).1⟩

/-- Four tasks of which three exit, each switching to one that has not run yet. -/
def freshEvents : List Event :=
  [.spawn false (some 65536) true, .spawn false (some 98304) true, .spawn false (some 131072) true,
    .spawn false (some 163840) true, .schedulerStart, .taskExitWithStatus 0, .taskExitWithStatus 0,
    .taskExitWithStatus 0]

/-- The stacks of the first two are never freed: the slot has been overwritten. -/
theorem exit_of_fresh_tasks_leaks :
    ∃ k, Run (Restrict Step fun _ event => event.plain = true) (bootKernel 100) freshEvents k ∧
      k.exited = [0, 1, 2] ∧ k.executing = some 3 ∧ k.pendingTask = some 2 ∧
      k.released 0 = 0 ∧ k.released 1 = 0 ∧ ¬ k.FreesStacks := by
  have along : Along Kernel.after (fun k event => event.plain = true ∧ k.Enabled event)
      (bootKernel 100) freshEvents := by
    decide +kernel
  have run : Run (Restrict Step fun _ event => event.plain = true) (bootKernel 100) freshEvents
      (freshEvents.foldl Kernel.after (bootKernel 100)) := by
    apply (Run.of_along along).mono
    intro _ _ _ taken
    exact ⟨taken.1.1, taken.1.2, taken.2⟩
  have exited : (freshEvents.foldl Kernel.after (bootKernel 100)).exited = [] ++ 0 :: [1, 2] := by
    decide +kernel
  have unreleased : (freshEvents.foldl Kernel.after (bootKernel 100)).released 0 = 0 := by
    decide +kernel
  refine ⟨_, run, exited, by decide +kernel, by decide +kernel, unreleased, by decide +kernel, ?_⟩
  intro frees
  have released := frees.freed [] 0 [1, 2] exited (by decide)
  rw [unreleased] at released
  cases released

end Charis.Sched
