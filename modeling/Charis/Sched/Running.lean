import Charis.Lib.Transition
import Charis.Sched.Scheduler

/-!
# The running task

Task states are written from many places, and `scheduler_schedule` can return without
a switch.  When no call leaves the current task blocked, the task that the kernel returns
to is the current one and the only one in the state `RUNNING`.
-/

namespace Charis.Sched

open Charis.Lib

@[simp] theorem updateTask_tasks (k : Kernel) (t u : TaskId) (change : Task → Task) :
    (k.updateTask t change).tasks u = if u = t then change (k.tasks t) else k.tasks u :=
  Function.update_apply ..

@[simp] theorem setState_tasks (k : Kernel) (t u : TaskId) (state : TaskState) :
    (k.setState t state).tasks u = if u = t then { k.tasks t with state } else k.tasks u :=
  updateTask_tasks ..

/-- Taking a task off a wait list changes links and the head of the list. -/
theorem ipcRemoveWaiter_keeps {R : Kernel → Kernel → Prop} (refl : ∀ k, R k k)
    (trans : ∀ {k k' k''}, R k k' → R k' k'' → R k k'')
    (head : ∀ k c waitHead, R k (k.updateChannel c ({ · with waitHead })))
    (link : ∀ k t ipcWaitNext, R k (k.updateTask t ({ · with ipcWaitNext })))
    (k : Kernel) (c : ChannelId) (target : TaskId) : R k (ipcRemoveWaiter k c target) := by
  suffices unlink : ∀ fuel previous waiter, R k (ipcUnlink k c target fuel previous waiter) from
    unlink _ _ _
  intro fuel previous waiter
  induction fuel generalizing previous waiter with
  | zero => exact refl k
  | succ fuel ih =>
  cases waiter with
  | none => exact refl k
  | some t =>
  simp only [ipcUnlink]
  split
  · cases previous with
    | none => exact trans (head k c _) (link _ t _)
    | some p => exact trans (link k p _) (link _ t _)
  · exact ih _ _

/-! ## Waking

Most calls only make blocked tasks ready. -/

/-- Only blocked tasks have changed state, and these are ready now. -/
structure Wakes (before after : Kernel) : Prop where
  current : after.current = before.current
  executing : after.executing = before.executing
  control : after.control = before.control
  pendingTask : after.pendingTask = before.pendingTask
  frame : ∀ t, (after.tasks t).frame = (before.tasks t).frame
  state : ∀ t, (after.tasks t).state = (before.tasks t).state ∨
    (before.tasks t).state = .blocked ∧ (after.tasks t).state = .ready

namespace Wakes

variable {k k' k'' : Kernel}

theorem refl (k : Kernel) : Wakes k k :=
  ⟨rfl, rfl, rfl, rfl, fun _ => rfl, fun _ => .inl rfl⟩

theorem trans (first : Wakes k k') (second : Wakes k' k'') : Wakes k k'' where
  current := second.current.trans first.current
  executing := second.executing.trans first.executing
  control := second.control.trans first.control
  pendingTask := second.pendingTask.trans first.pendingTask
  frame t := (second.frame t).trans (first.frame t)
  state t := by
    rcases second.state t with same | ⟨blocked, ready⟩
    · rw [same]
      exact first.state t
    · rcases first.state t with same | ⟨_, ready'⟩
      · exact .inr ⟨same ▸ blocked, ready⟩
      · rw [ready'] at blocked
        cases blocked

/-- A change of a task that concerns neither its state nor its stack. -/
theorem updateTask (k : Kernel) (t : TaskId) {change : Task → Task}
    (state : (change (k.tasks t)).state = (k.tasks t).state)
    (frame : (change (k.tasks t)).frame = (k.tasks t).frame) :
    Wakes k (k.updateTask t change) := by
  refine ⟨rfl, rfl, rfl, rfl, ?_, ?_⟩
  · intro u
    rw [updateTask_tasks]
    split
    · next same => rw [frame, same]
    · rfl
  · intro u
    left
    rw [updateTask_tasks]
    split
    · next same => rw [state, same]
    · rfl

theorem updateChannel (k : Kernel) (c : ChannelId) (change : Channel → Channel) :
    Wakes k (k.updateChannel c change) :=
  ⟨rfl, rfl, rfl, rfl, fun _ => rfl, fun _ => .inl rfl⟩

theorem updatePipe (k : Kernel) (p : PipeId) (change : Pipe → Pipe) :
    Wakes k (k.updatePipe p change) :=
  ⟨rfl, rfl, rfl, rfl, fun _ => rfl, fun _ => .inl rfl⟩

theorem answer (wakes : Wakes k k') (value : Int) (data : List UInt8) :
    Wakes k (k'.answer value data) :=
  wakes.trans ⟨rfl, rfl, rfl, rfl, fun _ => rfl, fun _ => .inl rfl⟩

theorem unblock (k : Kernel) (t : TaskId) : Wakes k (schedulerUnblockTask k t) := by
  unfold schedulerUnblockTask
  split
  · next blocked =>
    refine ⟨rfl, rfl, rfl, rfl, ?_, ?_⟩
    · intro u
      rw [setState_tasks]
      split
      · next same => rw [same]
      · rfl
    · intro u
      rw [setState_tasks]
      split
      · next same => exact .inr ⟨same ▸ blocked, rfl⟩
      · exact .inl rfl
  · exact refl k

theorem wake (k : Kernel) (waiter : Option TaskId) : Wakes k (wake k waiter) := by
  cases waiter with
  | none => exact refl k
  | some t => exact unblock k t

theorem sleepers (k : Kernel) (now : Nat) : Wakes k (taskWakeSleepers k now) := by
  refine ⟨rfl, rfl, rfl, rfl, ?_, ?_⟩
  · intro t
    simp only [taskWakeSleepers]
    split <;> rfl
  · intro t
    simp only [taskWakeSleepers]
    split
    · next due => exact .inr ⟨due.1, rfl⟩
    · exact .inl rfl

theorem removeWaiter (k : Kernel) (c : ChannelId) (target : TaskId) :
    Wakes k (ipcRemoveWaiter k c target) :=
  ipcRemoveWaiter_keeps refl trans (fun k c _ => updateChannel k c _)
    (fun k t _ => updateTask k t rfl rfl) k c target

theorem wakeOne (k : Kernel) (c : ChannelId) : Wakes k (ipcWakeOne k c) := by
  unfold ipcWakeOne
  split
  · exact refl k
  · exact ((updateChannel k c _).trans (updateTask _ _ rfl rfl)).trans (unblock _ _)

theorem wakeAll (k : Kernel) (fuel : Nat) (waiter : Option TaskId) :
    Wakes k (ipcWakeAll k fuel waiter) := by
  induction fuel generalizing k waiter with
  | zero => exact refl k
  | succ fuel ih =>
      cases waiter with
      | none => exact refl k
      | some t => exact ((updateTask k t rfl rfl).trans (unblock _ t)).trans (ih _ _)

theorem create (k : Kernel) : Wakes k (ipcCreate k) := by
  unfold ipcCreate
  split
  · exact (updateChannel k _ _).answer _ _
  · exact (refl k).answer _ _

theorem send (k : Kernel) (channel : Int) (data : Option (List UInt8)) :
    Wakes k (ipcSend k channel data) := by
  unfold ipcSend
  split
  · exact (refl k).answer _ _
  next c _ =>
  split
  · exact (refl k).answer _ _
  split
  · exact (refl k).answer _ _
  split
  · exact (refl k).answer _ _
  · exact ((updateChannel k c _).trans (wakeOne _ c)).answer _ _

theorem take (k : Kernel) (c : ChannelId) (maxSize : Nat) : Wakes k (ipcTake k c maxSize) := by
  unfold ipcTake
  exact (updateChannel k c _).answer _ _

theorem close (k : Kernel) (channel : Int) : Wakes k (ipcClose k channel) := by
  unfold ipcClose
  split
  · exact refl k
  next c _ =>
  split
  · exact refl k
  · exact ((updateChannel k c _).trans (wakeAll _ _ _)).trans (updateChannel _ c _)

theorem createPipe (k : Kernel) : Wakes k (pipeCreate k) := by
  unfold pipeCreate
  split
  · exact (updatePipe k _ _).answer _ _
  · exact (refl k).answer _ _

theorem closePipe (k : Kernel) (fd : Int) : Wakes k (pipeClose k fd) := by
  unfold pipeClose
  split
  · split
    · exact refl k
    · exact (updatePipe k _ _).trans (wake _ _)
  · split
    · exact refl k
    · exact (updatePipe k _ _).trans (wake _ _)

end Wakes

/-- The task is in the loop at the end of `task_exit_with_status`, or its saved stack leads
there. -/
def Leaving (k : Kernel) (t : TaskId) : Prop :=
  k.current = some t ∧ (k.control = .halted ∨ k.control = .lost) ∨
    (k.tasks t).frame = .suspended .exiting ∧ (k.current = some t → k.control = .resuming)

structure OnlyCurrentRuns (k : Kernel) : Prop where
  running_current : ∀ t, (k.tasks t).state = .running → k.current = some t
  current_running : k.control = .task ∨ k.control = .resuming →
    ∃ t, k.executing = some t ∧ k.current = some t ∧ (k.tasks t).state = .running
  pending_leaving : ∀ t, k.pendingTask = some t → Leaving k t ∧ (k.tasks t).state ≠ .unused
  boot : k.control = .boot → k.current = none

/-- What holds when the current task, running or not, is about to be switched away from. -/
structure Suspendable (k : Kernel) (point : Point) : Prop where
  running_current : ∀ t, (k.tasks t).state = .running → k.current = some t
  pending : ∀ t, k.pendingTask = some t → (k.tasks t).state ≠ .unused ∧
    (k.current = some t → point = .exiting) ∧
    (k.current ≠ some t → (k.tasks t).frame = .suspended .exiting)

/-- What holds between two tasks. -/
structure Idle (k : Kernel) : Prop where
  not_running : ∀ t, (k.tasks t).state ≠ .running
  pending : ∀ t, k.pendingTask = some t → (k.tasks t).state ≠ .unused ∧
    (k.tasks t).frame = .suspended .exiting

variable {k k' : Kernel} {point : Point}

theorem OnlyCurrentRuns.wakes (good : OnlyCurrentRuns k) (wakes : Wakes k k') :
    OnlyCurrentRuns k' := by
  have running : ∀ t, (k'.tasks t).state = .running ↔ (k.tasks t).state = .running := by
    intro t
    rcases wakes.state t with same | ⟨blocked, ready⟩
    · rw [same]
    · rw [blocked, ready]
      simp
  constructor
  · intro t now
    rw [wakes.current]
    exact good.running_current t ((running t).mp now)
  · intro control
    rw [wakes.control] at control
    obtain ⟨t, executing, current, state⟩ := good.current_running control
    exact ⟨t, wakes.executing.trans executing, wakes.current.trans current, (running t).mpr state⟩
  · intro t pending
    rw [wakes.pendingTask] at pending
    obtain ⟨leaving, used⟩ := good.pending_leaving t pending
    constructor
    · unfold Leaving at leaving ⊢
      rw [wakes.current, wakes.control, wakes.frame]
      exact leaving
    · rcases wakes.state t with same | ⟨_, ready⟩
      · rw [same]
        exact used
      · rw [ready]
        simp
  · intro control
    rw [wakes.control] at control
    exact wakes.current.trans (good.boot control)

/-- Code that the boot code or a task has called can switch away at any point. -/
theorem OnlyCurrentRuns.suspendable (good : OnlyCurrentRuns k)
    (control : k.control = .boot ∨ k.control = .task) (point : Point) : Suspendable k point := by
  constructor
  · exact good.running_current
  · intro t pending
    obtain ⟨⟨_, halted⟩ | ⟨frame, resuming⟩, used⟩ := good.pending_leaving t pending
    · rcases control with control | control <;> rw [control] at halted <;> simp at halted
    · refine ⟨used, ?_, fun _ => frame⟩
      intro current
      rcases control with control | control <;> simp [control] at resuming <;> contradiction

theorem OnlyCurrentRuns.suspendable_exiting (good : OnlyCurrentRuns k) :
    Suspendable k .exiting := by
  constructor
  · exact good.running_current
  · intro t pending
    obtain ⟨leaving, used⟩ := good.pending_leaving t pending
    refine ⟨used, fun _ => rfl, ?_⟩
    intro other
    rcases leaving with ⟨current, _⟩ | ⟨frame, _⟩
    · contradiction
    · exact frame

theorem switchTo_runs (idle : Idle k) (next : TaskId) : OnlyCurrentRuns (switchTo k next) := by
  have tasks : ∀ t, (switchTo k next).tasks t =
      if t = next then { k.tasks next with state := .running, started := true }
      else k.tasks t := by
    intro t
    simp only [switchTo, contextSwitch]
    exact updateTask_tasks ..
  have current : (switchTo k next).current = some next := rfl
  constructor
  · intro t running
    rw [tasks] at running
    split at running
    · next same => rw [current, same]
    · exact absurd running (idle.not_running t)
  · intro _
    exact ⟨next, rfl, rfl, by rw [tasks, if_pos rfl]⟩
  · intro t pending
    obtain ⟨used, frame⟩ := idle.pending t pending
    by_cases same : t = next
    · subst same
      refine ⟨?_, by rw [tasks, if_pos rfl]; simp⟩
      have control : (switchTo k t).control = .resuming ∨ (switchTo k t).control = .lost := by
        simp only [switchTo, contextSwitch, updateTask_tasks, if_true, frame]
        cases (k.tasks t).isUser && !(k.tasks t).started with
        | false => exact .inl rfl
        | true => exact .inr rfl
      rcases control with control | control
      · exact .inr ⟨by rw [tasks, if_pos rfl]; exact frame, fun _ => control⟩
      · exact .inl ⟨rfl, .inr control⟩
    · rw [tasks, if_neg same]
      refine ⟨.inr ⟨by rw [tasks, if_neg same]; exact frame, ?_⟩, used⟩
      intro now
      rw [current, Option.some.injEq] at now
      exact absurd now.symm same
  · intro control
    simp only [switchTo, contextSwitch] at control
    split at control <;> cases control

/-- A switch leaves only the task running that it goes to. -/
theorem schedule_runs (ready : Suspendable k point)
    (switched : schedulerSchedule k point = some k') : OnlyCurrentRuns k' := by
  unfold schedulerSchedule at switched
  split at switched
  · cases switched
  next next _ =>
  split at switched
  · cases switched
  split at switched
  · next current =>
    rw [Option.some.injEq] at switched
    subst switched
    apply switchTo_runs
    constructor
    · intro t running
      have := ready.running_current t running
      rw [current] at this
      cases this
    · intro t pending
      obtain ⟨used, _, frame⟩ := ready.pending t pending
      exact ⟨used, frame (by rw [current]; simp)⟩
  next previous current =>
  rw [Option.some.injEq] at switched
  subst switched
  apply switchTo_runs
  constructor
  · intro t running
    rw [updateTask_tasks] at running
    split at running
    · dsimp only at running
      split at running
      · cases running
      · contradiction
    · next other =>
      have := ready.running_current t running
      rw [current, Option.some.injEq] at this
      exact other this.symm
  intro t pending
  obtain ⟨used, own, frame⟩ := ready.pending t pending
  rw [updateTask_tasks]
  split
  · next same =>
    subst same
    refine ⟨?_, by rw [own current]⟩
    dsimp only
    split
    · simp
    · exact used
  · next other =>
    refine ⟨used, frame ?_⟩
    rw [current, Ne, Option.some.injEq]
    exact fun same => other same.symm

theorem schedule_of_yield (switched : schedulerYield k point = some k') :
    schedulerSchedule k point = some k' := by
  unfold schedulerYield at switched
  split at switched
  · cases switched
  · exact switched

theorem yield_runs (ready : Suspendable k point) (switched : schedulerYield k point = some k') :
    OnlyCurrentRuns k' :=
  schedule_runs ready (schedule_of_yield switched)

/-! ## Calls that block -/

/-- A task may be blocked or end just before a switch. -/
theorem Suspendable.updateTask (ready : Suspendable k point) (t : TaskId) {change : Task → Task}
    (stopped : (change (k.tasks t)).state ≠ .running) (used : (change (k.tasks t)).state ≠ .unused)
    (frame : (change (k.tasks t)).frame = (k.tasks t).frame) :
    Suspendable (k.updateTask t change) point := by
  constructor
  · intro u running
    rw [updateTask_tasks] at running
    split at running
    · contradiction
    · exact ready.running_current u running
  · intro u pending
    obtain ⟨used', own, away⟩ := ready.pending u pending
    rw [updateTask_tasks]
    split
    · next same =>
      subst same
      exact ⟨used, own, fun other => frame.trans (away other)⟩
    · exact ⟨used', own, away⟩

/-- Blocking another task than the current one. -/
theorem block_runs (good : OnlyCurrentRuns k) {t : TaskId} (other : k.current ≠ some t) :
    OnlyCurrentRuns (schedulerBlockTask k t) := by
  constructor
  · intro u running
    rw [schedulerBlockTask, setState_tasks] at running
    split at running
    · cases running
    · exact good.running_current u running
  · intro control
    obtain ⟨u, executing, current, state⟩ := good.current_running control
    refine ⟨u, executing, current, ?_⟩
    rw [schedulerBlockTask, setState_tasks, if_neg]
    · exact state
    · intro same
      exact other (same ▸ current)
  · intro u pending
    obtain ⟨leaving, used⟩ := good.pending_leaving u pending
    unfold Leaving at leaving ⊢
    rw [schedulerBlockTask, setState_tasks]
    split
    · next same =>
      subst same
      exact ⟨leaving, by simp⟩
    · exact ⟨leaving, used⟩
  · exact good.boot

/-- The receiver was blocked and is running again. -/
theorem Wakes.unblocked {blocked : Kernel} {t : TaskId} (running : (k.tasks t).state = .running)
    (before : Wakes k k') (after : Wakes (schedulerBlockTask k' t) blocked) :
    Wakes k (blocked.setState t .running) := by
  refine ⟨after.current.trans before.current, after.executing.trans before.executing,
    after.control.trans before.control, after.pendingTask.trans before.pendingTask, ?_, ?_⟩
  · intro u
    have frame := after.frame u
    rw [schedulerBlockTask, setState_tasks] at frame
    rw [setState_tasks, ← before.frame u]
    split at frame <;> simp_all
  intro u
  rw [setState_tasks]
  split
  · next same =>
    subst same
    exact .inl running.symm
  next other =>
  have rest := after.state u
  rw [schedulerBlockTask, setState_tasks, if_neg other] at rest
  rcases rest with same | ⟨blocked, ready⟩
  · rw [same]
    exact before.state u
  · rcases before.state u with same | ⟨_, ready'⟩
    · exact .inr ⟨same ▸ blocked, ready⟩
    · rw [ready'] at blocked
      cases blocked

theorem ipcWait_eq (k : Kernel) (t : TaskId) (c : ChannelId) :
    ∃ queued, Wakes k queued ∧ ipcWait k t c = schedulerBlockTask queued t :=
  ⟨_, ((Wakes.removeWaiter k c t).trans (.updateTask _ t rfl rfl)).trans (.updateChannel _ c _),
    rfl⟩

theorem receive_runs (good : OnlyCurrentRuns k) (control : k.control = .boot ∨ k.control = .task)
    (c : ChannelId) (maxSize : Nat) : OnlyCurrentRuns (ipcReceive k c maxSize) := by
  unfold ipcReceive
  split
  · exact good.wakes (.take k c maxSize)
  split
  · exact good.wakes ((Wakes.refl k).answer _ _)
  next t current =>
  obtain ⟨queued, wakes, waiting⟩ := ipcWait_eq k t c
  have queuedGood := good.wakes wakes
  rw [waiting]
  dsimp only
  split
  · next k' switched =>
    apply yield_runs _ switched
    unfold schedulerBlockTask Kernel.setState
    have ready := queuedGood.suspendable (wakes.control ▸ control)
      (.receiving c (k.channels c).generation maxSize (k.channels c).closes)
    exact ready.updateTask t (by simp) (by simp) rfl
  · -- the task stays current and is running again
    have inTask : k.control = .task := by
      rcases control with boot | inTask
      · rw [good.boot boot] at current
        cases current
      · exact inTask
    obtain ⟨u, _, same, running⟩ := good.current_running (.inl inTask)
    rw [current, Option.some.injEq] at same
    subst same
    exact good.wakes ((Wakes.unblocked running wakes (.removeWaiter _ c t)).answer _ _)

theorem recv_runs (good : OnlyCurrentRuns k) (control : k.control = .boot ∨ k.control = .task)
    (channel : Int) (buf : Bool) (maxSize : Nat) :
    OnlyCurrentRuns (ipcRecv k channel buf maxSize) := by
  have answered : ∀ value, OnlyCurrentRuns (k.answer value) :=
    fun value => good.wakes ((Wakes.refl k).answer value _)
  unfold ipcRecv
  split
  · exact answered _
  split
  · exact answered _
  split
  · exact answered _
  split
  · exact answered _
  · exact receive_runs good control _ maxSize

theorem mem_searchOrder {t : TaskId} (member : t ∈ k.order) : t ∈ searchOrder k := by
  unfold searchOrder
  split
  · exact member
  next c _ =>
  rw [List.mem_append, List.mem_append, List.mem_singleton]
  have split := List.takeWhile_append_dropWhile (p := fun u => decide (u ≠ c)) (l := k.order)
  rw [← split, List.mem_append] at member
  rcases member with before | after
  · exact .inl (.inr before)
  -- what is dropped begins with the current task
  · cases rest : k.order.dropWhile (fun u => decide (u ≠ c)) with
    | nil =>
        rw [rest] at after
        cases after
    | cons first others =>
    have same : first = c := by
      have := List.head?_dropWhile_not (fun u => decide (u ≠ c)) k.order
      rw [rest] at this
      simpa using this
    rw [rest, same, List.mem_cons] at after
    rcases after with now | later
    · exact .inr now
    · exact .inl (.inl later)

/-- Another task that is ready. -/
def OtherReady (k : Kernel) : Prop :=
  ∃ t ∈ k.order, k.current ≠ some t ∧ (k.tasks t).state = .ready

instance : Decidable (OtherReady k) :=
  inferInstanceAs (Decidable (∃ _ ∈ _, _))

theorem findNext_ready {next : TaskId} (found : schedulerFindNext k = some next) :
    (k.tasks next).state = .ready := by
  simpa using List.find?_some found

/-- A blocked task is switched away from if another one is ready. -/
theorem yield_switches {c : TaskId} (current : k.current = some c)
    (blocked : (k.tasks c).state = .blocked) (other : OtherReady k) (point : Point) :
    ∃ k', schedulerYield k point = some k' := by
  obtain ⟨t, member, _, ready⟩ := other
  cases found : schedulerFindNext k with
  | none =>
      unfold schedulerFindNext at found
      rw [List.find?_eq_none] at found
      have := found t (mem_searchOrder member)
      simp [ready] at this
  | some next =>
  have different : k.current ≠ some next := by
    intro same
    rw [current, Option.some.injEq] at same
    subst same
    rw [findNext_ready found] at blocked
    cases blocked
  simp only [schedulerYield, schedulerSchedule, found, current]
  rw [if_neg (current ▸ different)]
  exact ⟨_, rfl⟩

theorem sleep_runs (good : OnlyCurrentRuns k) (control : k.control = .boot ∨ k.control = .task)
    {ms : Nat} (switches : ms = 0 ∨ k.current = none ∨ OtherReady k) :
    OnlyCurrentRuns (taskSleepMs k ms) := by
  unfold taskSleepMs
  split
  · exact good
  next positive =>
  split
  · exact good
  next c current =>
  have other : OtherReady k := by
    rcases switches with zero | none | other
    · contradiction
    · rw [current] at none
      cases none
    · exact other
  dsimp only
  generalize slept : k.updateTask c _ = asleep
  have blocked : (asleep.tasks c).state = .blocked := by
    rw [← slept, updateTask_tasks, if_pos rfl]
  have stillReady : OtherReady asleep := by
    obtain ⟨t, member, different, ready⟩ := other
    subst slept
    refine ⟨t, member, different, ?_⟩
    rw [updateTask_tasks, if_neg]
    · exact ready
    · intro same
      exact different (same ▸ current)
  have same : asleep.current = some c := by
    rw [← slept]
    exact current
  obtain ⟨k', switched⟩ := yield_switches same blocked stillReady .returning
  rw [switched, Option.getD_some]
  apply yield_runs _ switched
  rw [← slept]
  exact (good.suspendable control .returning).updateTask c (by simp) (by simp) rfl

theorem timer_runs (good : OnlyCurrentRuns k)
    (control : k.control = .boot ∨ k.control = .task ∨ k.control = .halted) :
    OnlyCurrentRuns (timerHandler k) := by
  unfold timerHandler
  generalize ticked : ({ k with timerTicks := _ } : Kernel) = counted
  have tick : Wakes k counted := by
    rw [← ticked]
    exact ⟨rfl, rfl, rfl, rfl, fun _ => rfl, fun _ => .inl rfl⟩
  have wakes := tick.trans (.sleepers counted (timerGetMs counted))
  dsimp only
  generalize taskWakeSleepers counted _ = woken at wakes ⊢
  split
  · exact good.wakes wakes
  next c current =>
  split
  · generalize full : woken.updateTask c _ = k'
    have reset : Wakes k k' := by
      rw [← full]
      exact wakes.trans (.updateTask woken c rfl rfl)
    have good' := good.wakes reset
    cases switched : schedulerSchedule k'
      (if k'.control = .halted then .exiting else .returning) with
    | none => exact good'
    | some k'' =>
        rw [Option.getD_some]
        apply schedule_runs _ switched
        rw [reset.control]
        rcases control with boot | inTask | halted
        · rw [boot]
          exact good'.suspendable (.inl (reset.control.trans boot)) _
        · rw [inTask]
          exact good'.suspendable (.inr (reset.control.trans inTask)) _
        · rw [halted]
          exact good'.suspendable_exiting
  · exact good.wakes (wakes.trans (.updateTask woken c rfl rfl))

theorem taskAllocate_unused {t : TaskId} (allocated : taskAllocate k = some t) :
    (k.tasks t).state = .unused := by
  simpa using List.find?_some allocated

/-- A change of a slot that was unused. -/
theorem OnlyCurrentRuns.fresh (good : OnlyCurrentRuns k) {t : TaskId}
    (unused : (k.tasks t).state = .unused)
    (same : k'.current = k.current ∧ k'.executing = k.executing ∧ k'.control = k.control ∧
      k'.pendingTask = k.pendingTask)
    (others : ∀ u, u ≠ t → k'.tasks u = k.tasks u)
    (stopped : (k'.tasks t).state ≠ .running) : OnlyCurrentRuns k' := by
  obtain ⟨current, executing, control', pendingTask⟩ := same
  constructor
  · intro u running
    have other : u ≠ t := fun same => stopped (same ▸ running)
    rw [others u other] at running
    rw [current]
    exact good.running_current u running
  · intro now
    rw [control'] at now
    obtain ⟨u, executing', current', running⟩ := good.current_running now
    refine ⟨u, executing.trans executing', current.trans current', ?_⟩
    rw [others u]
    · exact running
    · intro same
      rw [same, unused] at running
      cases running
  · intro u pending
    rw [pendingTask] at pending
    obtain ⟨leaving, used⟩ := good.pending_leaving u pending
    have other : u ≠ t := fun same => used (same ▸ unused)
    unfold Leaving at leaving ⊢
    rw [others u other, current, control']
    exact ⟨leaving, used⟩
  · intro boot
    rw [control'] at boot
    exact current.trans (good.boot boot)

/-- The free list is all that `kfree` changes. -/
theorem kfree_eq (k : Kernel) (stack : Nat) : ∃ stackOwner released invalidFrees,
    kfree k stack = { k with stackOwner, released, invalidFrees } := by
  unfold kfree
  split
  · exact ⟨_, _, k.invalidFrees, rfl⟩
  · exact ⟨k.stackOwner, k.released, _, rfl⟩

/-- The creation of a task changes one slot, which was unused: it is handed to the scheduler, or
unused again. -/
structure Spawned (before after : Kernel) (t : TaskId) : Prop where
  same : ∃ tasks order nextPid stackOwner released invalidFrees, after = { before with
    tasks, order, nextPid, stackOwner, released, invalidFrees }
  unused : (before.tasks t).state = .unused
  others : ∀ u, u ≠ t → after.tasks u = before.tasks u
  link : (after.tasks t).ipcWaitNext = (before.tasks t).ipcWaitNext
  waiting : (after.tasks t).waitingEvent = 0
  outcome : ((after.tasks t).state = .unused ∧ (after.tasks t).frame = (before.tasks t).frame ∧
      after.order = before.order) ∨
    (after.tasks t).state = .ready ∧ (∀ point, (after.tasks t).frame ≠ .suspended point) ∧
      after.order = before.order ++ [t]

theorem spawn_cases (k : Kernel) (isUser : Bool) (stack : Option Nat) (addressSpace : Bool) :
    spawn k isUser stack addressSpace = k ∨
      ∃ t, Spawned k (spawn k isUser stack addressSpace) t := by
  unfold spawn taskCreate
  cases allocated : taskAllocate k with
  | none => exact .inl rfl
  | some t =>
  cases stack with
  | none => exact .inl rfl
  | some stack =>
  refine .inr ⟨t, ?_⟩
  dsimp only
  by_cases failed : (isUser && !addressSpace) = true
  · rw [if_pos failed]
    obtain ⟨owner, released, invalid, freed⟩ :=
      kfree_eq (taskInitCommon (kmalloc k t stack) t isUser stack) stack
    rw [freed]
    refine ⟨⟨_, _, _, _, _, _, rfl⟩, taskAllocate_unused allocated, ?_, ?_, ?_,
      .inl ⟨?_, ?_, rfl⟩⟩
    · intro u other
      simp [taskInitCommon, kmalloc, other]
    · simp [taskInitCommon, kmalloc]
    · simp [taskInitCommon, kmalloc]
    · simp
    · simp [taskInitCommon, kmalloc]
  · rw [if_neg failed]
    refine ⟨⟨_, _, _, _, _, _, rfl⟩, taskAllocate_unused allocated, ?_, ?_, ?_,
      .inr ⟨?_, ?_, rfl⟩⟩
    · intro u other
      simp [schedulerAddTask, taskInitCommon, kmalloc, other]
    · simp [schedulerAddTask, taskInitCommon, kmalloc]
    · simp [schedulerAddTask, taskInitCommon, kmalloc]
    · simp [schedulerAddTask]
    · cases isUser <;> simp [schedulerAddTask]

theorem Spawned.not_running {t : TaskId} (spawned : Spawned k k' t) :
    (k'.tasks t).state ≠ .running := by
  rcases spawned.outcome with ⟨state, -⟩ | ⟨state, -⟩ <;> simp [state]

theorem spawn_runs (good : OnlyCurrentRuns k) (isUser : Bool) (stack : Option Nat)
    (addressSpace : Bool) : OnlyCurrentRuns (spawn k isUser stack addressSpace) := by
  rcases spawn_cases k isUser stack addressSpace with same | ⟨t, spawned⟩
  · rwa [same]
  · obtain ⟨_, _, _, _, _, _, same⟩ := spawned.same
    refine good.fresh spawned.unused ?_ spawned.others spawned.not_running
    rw [same]
    exact ⟨rfl, rfl, rfl, rfl⟩

theorem start_runs (good : OnlyCurrentRuns k) (control : k.control = .boot) :
    OnlyCurrentRuns (schedulerStart k) := by
  have idle : Idle k := by
    have none := good.boot control
    constructor
    · intro t running
      have := good.running_current t running
      rw [none] at this
      cases this
    · intro t pending
      obtain ⟨used, _, frame⟩ := (good.suspendable (.inl control) .returning).pending t pending
      exact ⟨used, frame (by rw [none]; simp)⟩
  unfold schedulerStart
  split
  · exact good
  · exact switchTo_runs idle _

/-- The task that reads has to wait for a writer. -/
def ReadWaits (k : Kernel) (fd : Int) (buf : Bool) : Prop :=
  ∃ p, pipeIndex (fd.tdiv 2) = some p ∧ buf = true ∧ (k.pipes p).content = [] ∧
    (k.pipes p).writeFd ≠ -1

/-- The task that writes has to wait for a reader. -/
def WriteWaits (k : Kernel) (fd : Int) (data : Option (List UInt8)) : Prop :=
  ∃ p, pipeIndex ((fd - 1).tdiv 2) = some p ∧ data.isSome = true ∧
    pipeBufferSize ≤ (k.pipes p).content.length

theorem pipeRead_wakes {fd : Int} {buf : Bool} (free : k.current = none ∨ ¬ ReadWaits k fd buf)
    (count : Nat) : Wakes k (pipeRead k fd buf count) := by
  unfold pipeRead
  split
  · exact (Wakes.refl k).answer _ _
  next p index =>
  dsimp only
  split
  · exact (Wakes.refl k).answer _ _
  next given =>
  split
  · exact (Wakes.refl k).answer _ _
  next open_ =>
  split
  · next t content current =>
    exfalso
    rcases free with none | free
    · rw [current] at none
      cases none
    · apply free
      exact ⟨p, index, by simpa using given, content, fun closed => open_ ⟨content, closed⟩⟩
  · exact ((Wakes.updatePipe k p _).trans (.wake _ _)).answer _ _

theorem pipeWrite_wakes {fd : Int} {data : Option (List UInt8)}
    (free : k.current = none ∨ ¬ WriteWaits k fd data) : Wakes k (pipeWrite k fd data) := by
  unfold pipeWrite
  split
  · exact (Wakes.refl k).answer _ _
  next p index =>
  dsimp only
  split
  · exact (Wakes.refl k).answer _ _
  next bytes =>
  split
  · next full =>
    split
    · next t current =>
      exfalso
      rcases free with none | free
      · rw [current] at none
        cases none
      · exact free ⟨p, index, rfl, full⟩
    · exact ((Wakes.updatePipe k p _).trans (.wake _ _)).answer _ _
  · exact ((Wakes.updatePipe k p _).trans (.wake _ _)).answer _ _

/-! ## Exits and their end -/

theorem deferRelease_same (k : Kernel) (t : TaskId) :
    (taskDeferRelease k t).current = k.current ∧
      ((taskDeferRelease k t).pendingTask = k.pendingTask ∨
        (taskDeferRelease k t).pendingTask = some t) ∧
      ((taskDeferRelease k t).tasks t).state = .zombie ∧
      ∀ u, ((taskDeferRelease k t).tasks u).frame = (k.tasks u).frame ∧
        (u ≠ t → (taskDeferRelease k t).tasks u = k.tasks u) := by
  unfold taskDeferRelease
  dsimp only
  split
  · refine ⟨rfl, .inr rfl, by simp, fun u => ⟨?_, fun other => by simp [other]⟩⟩
    by_cases same : u = t <;> simp [same]
  · refine ⟨rfl, .inl rfl, by simp, fun u => ⟨?_, fun other => by simp [other]⟩⟩
    by_cases same : u = t <;> simp [same]

/-- An exited task can be switched away from at the end of its exit only. -/
theorem deferRelease_suspendable (ready : Suspendable k .exiting) {t : TaskId}
    (current : k.current = some t) : Suspendable (taskDeferRelease k t) .exiting := by
  obtain ⟨current', pendingTask, zombie, rest⟩ := deferRelease_same k t
  constructor
  · intro u running
    by_cases same : u = t
    · rw [same, zombie] at running
      cases running
    · rw [(rest u).2 same] at running
      rw [current']
      exact ready.running_current u running
  · intro u pending
    rw [current']
    by_cases same : u = t
    · subst same
      exact ⟨by rw [zombie]; simp, fun _ => rfl, fun other => absurd current other⟩
    · rcases pendingTask with before | now
      · rw [(rest u).2 same]
        exact ready.pending u (before ▸ pending)
      · rw [now, Option.some.injEq] at pending
        exact absurd pending.symm same

theorem exit_runs (good : OnlyCurrentRuns k) (status : Nat) :
    OnlyCurrentRuns (taskExitWithStatus k status) := by
  unfold taskExitWithStatus
  split
  · next none =>
    constructor
    · exact good.running_current
    · simp
    · intro t pending
      obtain ⟨leaving, used⟩ := good.pending_leaving t pending
      rcases leaving with ⟨current, _⟩ | ⟨frame, _⟩
      · rw [none] at current
        cases current
      · refine ⟨.inr ⟨frame, ?_⟩, used⟩
        intro current
        rw [none] at current
        cases current
    · simp
  next t current =>
  dsimp only
  generalize noted : k.updateTask t _ = k₁
  have wakes : Wakes k k₁ := by
    rw [← noted]
    exact .updateTask k t rfl rfl
  have ready := deferRelease_suspendable (good.wakes wakes).suspendable_exiting
    (wakes.current.trans current)
  have current₂ : (taskDeferRelease k₁ t).current = some t :=
    (deferRelease_same k₁ t).1.trans (wakes.current.trans current)
  generalize taskDeferRelease k₁ t = k₂ at ready current₂ ⊢
  cases switched : schedulerYield { k₂ with exited := k₂.exited ++ [t] } .exiting with
  | some k' =>
      apply yield_runs _ switched
      exact ⟨ready.running_current, ready.pending⟩
  | none =>
  constructor
  · exact ready.running_current
  · simp
  · intro u pending
    obtain ⟨used, _, frame⟩ := ready.pending u pending
    by_cases same : u = t
    · exact ⟨.inl ⟨same ▸ current₂, .inl rfl⟩, used⟩
    · have other : k₂.current ≠ some u := by
        rw [current₂, Ne, Option.some.injEq]
        exact fun equal => same equal.symm
      exact ⟨.inr ⟨frame other, fun now => absurd now other⟩, used⟩
  · simp

/-- `task_release_pending` frees what is parked and is done with the task it is from. -/
structure Released (before after : Kernel) : Prop where
  current : after.current = before.current
  executing : after.executing = before.executing
  pendingTask : after.pendingTask = before.pendingTask ∨ after.pendingTask = none
  frame : ∀ u, (after.tasks u).frame = (before.tasks u).frame
  used : ∀ u, (before.tasks u).state ≠ .unused → (after.tasks u).state ≠ .unused
  running : ∀ u, (after.tasks u).state = .running → (before.tasks u).state = .running
  other : ∀ u, before.pendingTask ≠ some u → after.tasks u = before.tasks u

theorem releasePending_released (k : Kernel) : Released k (taskReleasePending k) := by
  unfold taskReleasePending
  split
  · exact ⟨rfl, rfl, .inl rfl, fun _ => rfl, fun _ => id, fun _ => id, fun _ _ => rfl⟩
  obtain ⟨owner, released, invalid, freed⟩ :=
    kfree_eq { k with pendingStack := 0, pendingTask := none } k.pendingStack
  rw [freed]
  dsimp only
  split
  · next t pending =>
    refine ⟨rfl, rfl, .inr rfl, ?_, ?_, ?_, ?_⟩
    · intro u
      by_cases same : u = t <;> simp [same]
    · intro u used
      by_cases same : u = t <;> simp [same, used]
    · intro u
      by_cases same : u = t <;> simp [same]
    · intro u other
      rw [setState_tasks, if_neg]
      intro same
      exact other (same ▸ pending)
  · exact ⟨rfl, rfl, .inr rfl, fun _ => rfl, fun _ => id, fun _ => id, fun _ _ => rfl⟩

/-- A task that has not exited runs on once the stack of another task is freed. -/
theorem release_runs (good : OnlyCurrentRuns k) (control : k.control = .resuming) {t : TaskId}
    (current : k.current = some t) (stays : (k.tasks t).frame ≠ .suspended .exiting) :
    OnlyCurrentRuns { taskReleasePending k with control := .task } := by
  have released := releasePending_released k
  have others : ∀ u, k.pendingTask = some u → u ≠ t ∧ (k.tasks u).frame = .suspended .exiting ∧
      (k.tasks u).state ≠ .unused := by
    intro u pending
    obtain ⟨⟨_, halted⟩ | ⟨frame, _⟩, used⟩ := good.pending_leaving u pending
    · rw [control] at halted
      simp at halted
    · exact ⟨fun same => stays (same ▸ frame), frame, used⟩
  constructor
  · intro u running
    exact released.current.trans (good.running_current u (released.running u running))
  · intro _
    obtain ⟨u, executing, now, running⟩ := good.current_running (.inr control)
    refine ⟨u, released.executing.trans executing, released.current.trans now, ?_⟩
    rw [current, Option.some.injEq] at now
    dsimp only
    rw [released.other u]
    · exact running
    · intro pending
      exact absurd now.symm (others u pending).1
  · intro u pending
    rcases released.pendingTask with before | none
    · obtain ⟨other, frame, used⟩ := others u (before ▸ pending)
      refine ⟨.inr ⟨(released.frame u).trans frame, ?_⟩, released.used u used⟩
      intro now
      rw [released.current, current, Option.some.injEq] at now
      exact absurd now.symm other
    · rw [none] at pending
      cases pending
  · simp

/-- A task that has exited goes on in the loop at the end of its exit. -/
theorem release_halts (good : OnlyCurrentRuns k) :
    OnlyCurrentRuns { taskReleasePending k with control := .halted } := by
  have released := releasePending_released k
  constructor
  · intro u running
    exact released.current.trans (good.running_current u (released.running u running))
  · simp
  · intro u pending
    rcases released.pendingTask with before | none
    · obtain ⟨leaving, used⟩ := good.pending_leaving u (before ▸ pending)
      refine ⟨?_, released.used u used⟩
      by_cases own : k.current = some u
      · exact .inl ⟨released.current.trans own, .inl rfl⟩
      · rcases leaving with ⟨now, _⟩ | ⟨frame, _⟩
        · contradiction
        · refine .inr ⟨(released.frame u).trans frame, ?_⟩
          intro now
          exact absurd (released.current.symm.trans now) own
    · rw [none] at pending
      cases pending
  · simp

theorem resume_runs (good : OnlyCurrentRuns k) (control : k.control = .resuming) :
    OnlyCurrentRuns (resume k) := by
  unfold resume
  split
  · exact good
  next t current =>
  split
  · next frame => exact release_runs good control current (by rw [frame]; simp)
  · next c generation maxSize closes frame =>
    have back := release_runs good control current (by rw [frame]; simp)
    obtain ⟨u, _, now, running⟩ := back.current_running (.inl rfl)
    have same : u = t := by
      have := (releasePending_released k).current.symm.trans now
      rw [current, Option.some.injEq] at this
      exact this.symm
    subst same
    generalize released : ({ taskReleasePending k with control := .task } : Kernel) = k'
      at back running ⊢
    unfold ipcResume
    rw [if_neg (by rw [running]; simp)]
    split
    · exact back.wakes ((Wakes.refl k').answer _ _)
    · exact receive_runs back (.inr (by rw [← released])) c maxSize
  · exact release_halts good
  · exact good
  · exact good

/-- The step does not return to the current task after blocking it: a sleeper has another
task to switch to, no pipe has to be waited for, and a task that is blocked by name is
another one. -/
def LeavesRunning (k : Kernel) : Event → Prop
  | .taskSleepMs ms => ms = 0 ∨ k.current = none ∨ OtherReady k
  | .schedulerBlockTask t => k.current ≠ some t
  | .pipeRead fd buf _ => k.current = none ∨ ¬ ReadWaits k fd buf
  | .pipeWrite fd data => k.current = none ∨ ¬ WriteWaits k fd data
  | _ => True

theorem step_runs (good : OnlyCurrentRuns k) {event : Event} (leaves : LeavesRunning k event)
    (step : Step k event k') : OnlyCurrentRuns k' := by
  obtain ⟨enabled, rfl⟩ := step
  cases event with
  | spawn isUser stack addressSpace => exact spawn_runs good isUser stack addressSpace
  | schedulerStart => exact start_runs good enabled
  | schedulerYield =>
      simp only [Kernel.after]
      cases switched : schedulerYield k .returning with
      | none => exact good
      | some k' => exact yield_runs (good.suspendable enabled _) switched
  | timerHandler => exact timer_runs good enabled
  | taskSleepMs ms => exact sleep_runs good enabled leaves
  | taskWakeSleepers now => exact good.wakes (.sleepers k now)
  | schedulerBlockTask t => exact block_runs good leaves
  | schedulerUnblockTask t => exact good.wakes (.unblock k t)
  | ipcCreate => exact good.wakes (.create k)
  | ipcSend channel data => exact good.wakes (.send k channel data)
  | ipcRecv channel buf maxSize => exact recv_runs good enabled channel buf maxSize
  | ipcClose channel => exact good.wakes (.close k channel)
  | pipeCreate => exact good.wakes (.createPipe k)
  | pipeRead fd buf count => exact good.wakes (pipeRead_wakes leaves count)
  | pipeWrite fd data => exact good.wakes (pipeWrite_wakes leaves)
  | pipeClose fd => exact good.wakes (.closePipe k fd)
  | taskExitWithStatus status => exact exit_runs good status
  | resume => exact resume_runs good enabled

/-- The kernel before `scheduler_start`, with no task yet. -/
def bootKernel (timerFrequencyHz : Nat) : Kernel :=
  { timerFrequencyHz }

theorem bootKernel_runs (timerFrequencyHz : Nat) :
    OnlyCurrentRuns (bootKernel timerFrequencyHz) := by
  constructor <;> simp [bootKernel]

theorem run_runs {timerFrequencyHz : Nat} {events : List Event}
    (run : Run (Restrict Step LeavesRunning) (bootKernel timerFrequencyHz) events k) :
    OnlyCurrentRuns k := by
  have keeps : ∀ k (event : Event) k', OnlyCurrentRuns k → True →
      Restrict Step LeavesRunning k event k' → OnlyCurrentRuns k' := by
    intro k event k' good _ step
    exact step_runs good step.1 step.2
  exact run.invariant keeps (bootKernel_runs timerFrequencyHz) fun _ _ => trivial

/-- The kernel has returned to the current task, and it is the only one running. -/
def Kernel.InRunningTask (k : Kernel) : Prop :=
  ∃ t, k.executing = some t ∧ k.current = some t ∧ (k.tasks t).state = .running ∧
    ∀ u, (k.tasks u).state = .running → u = t

/-- The kernel has returned to a task that it has blocked. -/
def Kernel.InBlockedTask (k : Kernel) : Prop :=
  k.control = .task ∧ ∃ t, k.current = some t ∧ (k.tasks t).state = .blocked

theorem mem_of_mem_searchOrder {t : TaskId} (member : t ∈ searchOrder k) :
    t ∈ k.order ∨ k.current = some t := by
  unfold searchOrder at member
  split at member
  · exact .inl member
  next c current =>
  rw [List.mem_append, List.mem_append, List.mem_singleton] at member
  rcases member with (after | before) | same
  · exact .inl ((List.dropWhile_sublist _).mem (List.mem_of_mem_drop after))
  · exact .inl ((List.takeWhile_sublist _).mem before)
  · exact .inr (same ▸ current)

theorem sleep_blocks {ms : Nat} (control : k.control = .task)
    (stays : ¬ (ms = 0 ∨ k.current = none ∨ OtherReady k)) :
    (taskSleepMs k ms).InBlockedTask := by
  rw [not_or, not_or] at stays
  obtain ⟨positive, current, alone⟩ := stays
  obtain ⟨c, current⟩ := Option.ne_none_iff_exists'.mp current
  simp only [taskSleepMs, if_neg positive, current]
  generalize slept : k.updateTask c _ = asleep
  have blocked : (asleep.tasks c).state = .blocked := by
    rw [← slept, updateTask_tasks, if_pos rfl]
  have returned : schedulerYield asleep .returning = none := by
    have none : schedulerFindNext asleep = none := by
      unfold schedulerFindNext
      rw [List.find?_eq_none]
      intro t member ready
      rw [decide_eq_true_eq] at ready
      have other : t ≠ c := by
        intro same
        rw [same, blocked] at ready
        cases ready
      have different : k.current ≠ some t := by
        rw [current, Ne, Option.some.injEq]
        exact fun same => other same.symm
      subst slept
      rw [updateTask_tasks, if_neg other] at ready
      rcases mem_of_mem_searchOrder member with inside | now
      · exact alone ⟨t, inside, different, ready⟩
      · exact different now
    unfold schedulerYield schedulerSchedule
    rw [none]
    split <;> rfl
  rw [returned, Option.getD_none]
  subst slept
  exact ⟨control, c, current, blocked⟩

/-- The condition is exact: a step that does not meet it returns to a blocked task. -/
theorem step_blocks (good : OnlyCurrentRuns k) {event : Event} (step : Step k event k')
    (blocks : ¬ LeavesRunning k event) : k'.InBlockedTask := by
  obtain ⟨enabled, rfl⟩ := step
  have inTask : k.current ≠ none → k.control = .boot ∨ k.control = .task → k.control = .task := by
    intro current control
    rcases control with boot | control
    · exact absurd (good.boot boot) current
    · exact control
  cases event with
  | taskSleepMs ms =>
      have current : k.current ≠ none := fun none => blocks (.inr (.inl none))
      exact sleep_blocks (inTask current enabled) blocks
  | schedulerBlockTask t =>
      simp only [LeavesRunning, not_not] at blocks
      have control := inTask (by rw [blocks]; simp) enabled
      exact ⟨control, t, blocks, by simp [Kernel.after, schedulerBlockTask]⟩
  | pipeRead fd buf count =>
      simp only [LeavesRunning, not_or, not_not] at blocks
      obtain ⟨current, p, index, given, empty, opened⟩ := blocks
      have control := inTask current enabled
      obtain ⟨t, current⟩ := Option.ne_none_iff_exists'.mp current
      simp only [Kernel.after, pipeRead, index, given, empty, opened, current]
      exact ⟨control, t, current, by simp [Kernel.answer, schedulerBlockTask]⟩
  | pipeWrite fd data =>
      simp only [LeavesRunning, not_or, not_not] at blocks
      obtain ⟨current, p, index, given, full⟩ := blocks
      have control := inTask current enabled
      obtain ⟨t, current⟩ := Option.ne_none_iff_exists'.mp current
      obtain ⟨bytes, rfl⟩ := Option.isSome_iff_exists.mp given
      simp only [Kernel.after, pipeWrite, index, full, current, if_true]
      exact ⟨control, t, current, by simp [Kernel.answer, schedulerBlockTask]⟩
  | _ => exact absurd trivial blocks

/-- If no step returns to the current task after blocking it, the task that the kernel
returns to is the current one and the only one running.  The first step that does breaks
this. -/
theorem returns_to_running_task {timerFrequencyHz : Nat} {events : List Event}
    (run : Run (Restrict Step LeavesRunning) (bootKernel timerFrequencyHz) events k) :
    (k.control = .task → k.InRunningTask) ∧
      ∀ event k', Step k event k' → ¬ LeavesRunning k event →
        k'.control = .task ∧ ¬ k'.InRunningTask := by
  have good := run_runs run
  constructor
  · intro control
    obtain ⟨t, executing, current, running⟩ := good.current_running (.inl control)
    refine ⟨t, executing, current, running, ?_⟩
    intro u also
    have := good.running_current u also
    rw [current, Option.some.injEq] at this
    exact this.symm
  · intro event k' step blocks
    obtain ⟨control, t, current, blocked⟩ := step_blocks good step blocks
    refine ⟨control, ?_⟩
    rintro ⟨u, _, current', running, _⟩
    rw [current, Option.some.injEq] at current'
    rw [← current', blocked] at running
    cases running

/-- Two tasks are created, and the first goes to sleep. -/
def sleeperEvents : List Event :=
  [.spawn false (some 65536) true, .spawn false (some 98304) true, .schedulerStart, .taskSleepMs 5]

theorem returns_to_running_task_sleeper :
    ∃ k, Run (Restrict Step LeavesRunning) (bootKernel 100) sleeperEvents k ∧
      k.control = .task ∧ k.InRunningTask := by
  have along : Along Kernel.after (fun k event => LeavesRunning k event ∧ k.Enabled event)
      (bootKernel 100) sleeperEvents := by
    refine ⟨⟨trivial, .inl rfl, ?_⟩, ⟨trivial, .inl rfl, ?_⟩, ⟨trivial, rfl⟩, ⟨?_, .inr rfl⟩,
      trivial⟩
    · rintro _ ⟨⟩
      exact ⟨by decide, rfl⟩
    · rintro _ ⟨⟩
      exact ⟨by decide, by decide +kernel⟩
    · exact .inr (.inr (by decide +kernel))
  have run : Run (Restrict Step LeavesRunning) (bootKernel 100) sleeperEvents
      (sleeperEvents.foldl Kernel.after (bootKernel 100)) := by
    apply (Run.of_along along).mono
    intro _ _ _ taken
    exact ⟨taken.1.1, taken.1.2, taken.2⟩
  have control : (sleeperEvents.foldl Kernel.after (bootKernel 100)).control = .task := by
    decide +kernel
  exact ⟨_, run, control, (returns_to_running_task run).1 control⟩

/-- The only task goes to sleep, and runs on although it is blocked. -/
theorem sleep_returns_blocked :
    ∃ k, Run Step (bootKernel 100)
        [.spawn false (some 65536) true, .schedulerStart, .taskSleepMs 1] k ∧
      k.control = .task ∧ k.current = some 0 ∧ (k.tasks 0).state = .blocked ∧
      ¬ k.InRunningTask := by
  have along : Along Kernel.after Kernel.Enabled (bootKernel 100)
      [.spawn false (some 65536) true, .schedulerStart, .taskSleepMs 1] := by
    refine ⟨⟨.inl rfl, ?_⟩, rfl, .inr rfl, trivial⟩
    rintro _ ⟨⟩
    exact ⟨by decide, rfl⟩
  refine ⟨_, Run.of_along along, by decide +kernel, by decide +kernel, by decide +kernel, ?_⟩
  rintro ⟨t, _, current, running, _⟩
  have first : some (0 : TaskId) = some t := current
  rw [Option.some.injEq] at first
  subst first
  revert running
  decide +kernel

end Charis.Sched
