import Charis.Sched.Keyboard
import Charis.Sched.WaitLists

/-!
# Sleeping

A task that sleeps is blocked until the timer finds that its deadline has passed.  It is
woken before if it is still noted somewhere as a waiter, and it does not sleep at all if
no other task is ready when it yields.  Otherwise it comes back at its deadline or later.
-/

namespace Charis.Sched

open Charis.Lib

variable {k k' k'' : Kernel} {t u : TaskId} {deadline : Nat} {quiet : Prop}

/-- The task has been switched away from and waits for the deadline. -/
structure Asleep (k : Kernel) (t : TaskId) (deadline : Nat) : Prop where
  away : k.current ≠ some t
  stopped : (k.tasks t).state = .blocked ∨ (k.tasks t).state = .zombie
  waiting : (k.tasks t).waitingEvent = taskWaitingSleep
  eventData : (k.tasks t).eventData = deadline

theorem Asleep.not_ready (asleep : Asleep k t deadline) : (k.tasks t).state ≠ .ready := by
  intro ready
  rcases asleep.stopped with stopped | stopped <;> rw [ready] at stopped <;> cases stopped

theorem Asleep.not_unused (asleep : Asleep k t deadline) : (k.tasks t).state ≠ .unused := by
  intro unused
  rcases asleep.stopped with stopped | stopped <;> rw [unused] at stopped <;> cases stopped

/-- It is only the task itself and who runs that matters. -/
theorem Asleep.of_same (asleep : Asleep k t deadline) (current : k'.current = k.current)
    (task : k'.tasks t = k.tasks t) : Asleep k' t deadline := by
  constructor
  · rw [current]
    exact asleep.away
  · rw [task]
    exact asleep.stopped
  · rw [task]
    exact asleep.waiting
  · rw [task]
    exact asleep.eventData

/-- No time passes, and if it is quiet for the task then it sleeps on. -/
structure Undisturbed (t : TaskId) (quiet : Prop) (before after : Kernel) : Prop where
  time : timerGetMs after = timerGetMs before
  boot : after.control = .boot → before.control = .boot
  asleep : quiet → ∀ deadline, Asleep before t deadline → Asleep after t deadline

namespace Undisturbed

theorem refl (k : Kernel) : Undisturbed t quiet k k := ⟨rfl, id, fun _ _ => id⟩

theorem trans (first : Undisturbed t quiet k k') (second : Undisturbed t quiet k' k'') :
    Undisturbed t quiet k k'' where
  time := second.time.trans first.time
  boot boot := first.boot (second.boot boot)
  asleep calm deadline before := second.asleep calm deadline (first.asleep calm deadline before)

/-- Neither the tasks nor the time are changed. -/
theorem ofSame (time : timerGetMs k' = timerGetMs k)
    (boot : k'.control = .boot → k.control = .boot) (current : k'.current = k.current)
    (tasks : k'.tasks = k.tasks) : Undisturbed t quiet k k' := by
  refine ⟨time, boot, ?_⟩
  intro _ deadline before
  exact before.of_same current (congrFun tasks t)

/-- Another task is changed. -/
theorem updateOther (k : Kernel) (u : TaskId) (change : Task → Task)
    (other : quiet → ∀ deadline, Asleep k t deadline → u ≠ t) :
    Undisturbed t quiet k (k.updateTask u change) := by
  refine ⟨rfl, id, ?_⟩
  intro calm deadline before
  have same : (k.updateTask u change).tasks t = k.tasks t := by
    rw [updateTask_tasks, if_neg (other calm deadline before).symm]
  exact before.of_same rfl same

/-- A task is changed, but not what it waits for, and it is not made ready. -/
theorem updateTask (k : Kernel) (u : TaskId) {change : Task → Task}
    (stopped : (change (k.tasks u)).state = (k.tasks u).state ∨
      (change (k.tasks u)).state = .blocked ∨ (change (k.tasks u)).state = .zombie)
    (waiting : (change (k.tasks u)).waitingEvent = (k.tasks u).waitingEvent)
    (eventData : (change (k.tasks u)).eventData = (k.tasks u).eventData) :
    Undisturbed t quiet k (k.updateTask u change) := by
  refine ⟨rfl, id, ?_⟩
  intro _ deadline before
  by_cases same : u = t
  · subst same
    have changed : (k.updateTask u change).tasks u = change (k.tasks u) := by
      rw [updateTask_tasks, if_pos rfl]
    refine ⟨before.away, ?_, ?_, ?_⟩
    · rw [changed]
      rcases stopped with kept | stopped
      · rw [kept]
        exact before.stopped
      · exact stopped
    · rw [changed, waiting]
      exact before.waiting
    · rw [changed, eventData]
      exact before.eventData
  · exact (updateOther k u change fun _ _ _ => same).asleep trivial deadline before

theorem setState (k : Kernel) (u : TaskId) {state : TaskState}
    (stopped : state = .blocked ∨ state = .zombie) :
    Undisturbed t quiet k (k.setState u state) :=
  updateTask k u (.inr stopped) rfl rfl

theorem block (k : Kernel) (u : TaskId) : Undisturbed t quiet k (schedulerBlockTask k u) :=
  setState k u (.inl rfl)

theorem updateChannel (k : Kernel) (c : ChannelId) (change : Channel → Channel) :
    Undisturbed t quiet k (k.updateChannel c change) :=
  ofSame rfl id rfl rfl

theorem updatePipe (k : Kernel) (p : PipeId) (change : Pipe → Pipe) :
    Undisturbed t quiet k (k.updatePipe p change) :=
  ofSame rfl id rfl rfl

theorem answer (undisturbed : Undisturbed t quiet k k') (value : Int) (data : List UInt8) :
    Undisturbed t quiet k (k'.answer value data) :=
  undisturbed.trans (ofSame rfl id rfl rfl)

theorem unblock (k : Kernel) (u : TaskId) (other : quiet → u ≠ t) :
    Undisturbed t quiet k (schedulerUnblockTask k u) := by
  unfold schedulerUnblockTask
  split
  · exact updateOther k u _ fun calm _ _ => other calm
  · exact refl k

theorem wake (k : Kernel) (waiter : Option TaskId) (other : quiet → t ∉ waiter) :
    Undisturbed t quiet k (wake k waiter) := by
  cases waiter with
  | none => exact refl k
  | some u =>
      apply unblock
      rintro calm rfl
      exact other calm rfl

theorem removeWaiter (k : Kernel) (c : ChannelId) (target : TaskId) :
    Undisturbed t quiet k (ipcRemoveWaiter k c target) :=
  ipcRemoveWaiter_keeps refl trans (fun k c _ => updateChannel k c _)
    (fun k u _ => updateTask k u (.inl rfl) rfl rfl) k c target

theorem wakeOne (k : Kernel) (c : ChannelId) (other : quiet → t ∉ (k.channels c).waitHead) :
    Undisturbed t quiet k (ipcWakeOne k c) := by
  unfold ipcWakeOne
  split
  · exact refl k
  · next u first =>
    refine ((updateChannel k c _).trans (updateTask _ u (.inl rfl) rfl rfl)).trans
      (unblock _ u ?_)
    rintro calm rfl
    exact other calm first

theorem wakeAll (k : Kernel) (fuel : Nat) (waiter : Option TaskId)
    (other : quiet → t ∉ walk k.links fuel waiter) :
    Undisturbed t quiet k (ipcWakeAll k fuel waiter) := by
  induction fuel generalizing k waiter with
  | zero => exact refl k
  | succ fuel ih =>
  cases waiter with
  | none => exact refl k
  | some u =>
  have apart : quiet → t ≠ u ∧ t ∉ walk k.links fuel (k.links u) := by
    intro calm
    simpa only [walk, List.mem_cons, not_or] using other calm
  simp only [ipcWakeAll]
  refine ((updateTask k u (.inl rfl) rfl rfl).trans
    (unblock _ u fun calm => (apart calm).1.symm)).trans (ih _ _ ?_)
  intro calm member
  apply (apart calm).2
  rw [(Still.unblock _ u).links_eq, links_updateTask] at member
  exact walk_update_subset _ _ _ _ member

theorem create (k : Kernel) : Undisturbed t quiet k (ipcCreate k) := by
  unfold ipcCreate
  split
  · exact (updateChannel k _ _).answer _ _
  · exact (refl k).answer _ _

theorem createPipe (k : Kernel) : Undisturbed t quiet k (pipeCreate k) := by
  unfold pipeCreate
  split
  · exact (updatePipe k _ _).answer _ _
  · exact (refl k).answer _ _

theorem switchTo (k : Kernel) (next : TaskId)
    (other : quiet → ∀ deadline, Asleep k t deadline → next ≠ t) :
    Undisturbed t quiet k (switchTo k next) := by
  refine ⟨rfl, ?_, ?_⟩
  · intro boot
    simp only [Sched.switchTo, contextSwitch] at boot
    split at boot <;> cases boot
  · intro calm deadline before
    have apart := other calm deadline before
    have same : (Sched.switchTo k next).tasks t = k.tasks t := by
      simp [Sched.switchTo, contextSwitch, apart.symm]
    refine ⟨?_, same ▸ before.stopped, same ▸ before.waiting, same ▸ before.eventData⟩
    intro entered
    exact apart (Option.some.inj entered)

theorem schedule {point : Point} (switched : schedulerSchedule k point = some k') :
    Undisturbed t quiet k k' := by
  unfold schedulerSchedule at switched
  split at switched
  · cases switched
  next next found =>
  have ready := findNext_ready found
  split at switched
  · cases switched
  split at switched
  · rw [Option.some.injEq] at switched
    rw [← switched]
    apply switchTo
    rintro - deadline asleep rfl
    exact asleep.not_ready ready
  next previous current =>
  rw [Option.some.injEq] at switched
  rw [← switched]
  refine (updateOther k previous _ ?_).trans (switchTo _ next ?_)
  · rintro - deadline asleep rfl
    exact asleep.away current
  · rintro - deadline asleep rfl
    apply asleep.not_ready
    rw [updateTask_tasks]
    split
    · next same => simp [← same, ready]
    · exact ready

theorem scheduled (undisturbed : Undisturbed t quiet k k') (point : Point) :
    Undisturbed t quiet k ((schedulerSchedule k' point).getD k') := by
  cases switched : schedulerSchedule k' point with
  | none => exact undisturbed
  | some k'' => exact undisturbed.trans (schedule switched)

theorem yielded (undisturbed : Undisturbed t quiet k k') (point : Point) :
    Undisturbed t quiet k ((schedulerYield k' point).getD k') := by
  cases switched : schedulerYield k' point with
  | none => exact undisturbed
  | some k'' => exact undisturbed.trans (schedule (schedule_of_yield switched))

theorem take (k : Kernel) (c : ChannelId) (maxSize : Nat) :
    Undisturbed t quiet k (ipcTake k c maxSize) := by
  unfold ipcTake
  exact (updateChannel k c _).answer _ _

theorem wait (k : Kernel) (u : TaskId) (c : ChannelId) :
    Undisturbed t quiet k (ipcWait k u c) :=
  (((removeWaiter k c u).trans (updateTask _ u (.inl rfl) rfl rfl)).trans
    (updateChannel _ c _)).trans (block _ u)

theorem giveUp (k : Kernel) {u : TaskId} (c : ChannelId) (current : k.current = some u) :
    Undisturbed t quiet k (((ipcRemoveWaiter k c u).setState u .running).answer (-1)) := by
  have removed : Undisturbed t quiet k (ipcRemoveWaiter k c u) := removeWaiter k c u
  have same := (Wakes.removeWaiter k c u).current
  refine (removed.trans (updateOther _ u _ ?_)).answer _ _
  rintro - deadline asleep rfl
  exact asleep.away (same.trans current)

theorem receive (k : Kernel) (c : ChannelId) (maxSize : Nat) :
    Undisturbed t quiet k (ipcReceive k c maxSize) := by
  unfold ipcReceive
  split
  · exact take k c maxSize
  split
  · exact (refl k).answer _ _
  next u current =>
  have waiting : Undisturbed t quiet k (ipcWait k u c) := wait k u c
  have same : (ipcWait k u c).current = some u := by
    obtain ⟨queued, wakes, equal⟩ := ipcWait_eq k u c
    rw [equal]
    exact wakes.current.trans current
  dsimp only
  split
  · next k' switched => exact waiting.trans (schedule (schedule_of_yield switched))
  · exact waiting.trans (giveUp _ c same)

theorem recv (k : Kernel) (channel : Int) (buf : Bool) (maxSize : Nat) :
    Undisturbed t quiet k (ipcRecv k channel buf maxSize) := by
  unfold ipcRecv
  split
  · exact (refl k).answer _ _
  split
  · exact (refl k).answer _ _
  split
  · exact (refl k).answer _ _
  split
  · exact (refl k).answer _ _
  · exact receive k _ maxSize

theorem kfree (k : Kernel) (stack : Nat) : Undisturbed t quiet k (kfree k stack) := by
  obtain ⟨owner, released, invalid, freed⟩ := kfree_eq k stack
  rw [freed]
  exact ofSame rfl id rfl rfl

theorem releasePending (k : Kernel) : Undisturbed t quiet k (taskReleasePending k) := by
  unfold taskReleasePending
  split
  · exact refl k
  have cleared : Undisturbed t quiet k { k with pendingStack := 0, pendingTask := none } :=
    ofSame rfl id rfl rfl
  have freed := cleared.trans (kfree _ k.pendingStack)
  dsimp only
  split
  · exact freed.trans (setState _ _ (.inr rfl))
  · exact freed

theorem goTo (undisturbed : Undisturbed t quiet k k') {control : Control}
    (other : control ≠ .boot) : Undisturbed t quiet k { k' with control } :=
  undisturbed.trans (ofSame rfl (fun boot => absurd boot other) rfl rfl)

theorem resumed (k : Kernel) : Undisturbed t quiet k (resume k) := by
  unfold resume
  split
  · exact refl k
  next u current =>
  have released : Undisturbed t quiet k (taskReleasePending k) := releasePending k
  split
  · exact released.goTo (by simp)
  · next c generation maxSize closes frame =>
    have inTask : Undisturbed t quiet k { taskReleasePending k with control := .task } :=
      released.goTo (by simp)
    have same : (taskReleasePending k).current = some u := by
      rw [(releasePending_released k).current]
      exact current
    unfold ipcResume
    split
    · exact inTask.trans (giveUp _ c same)
    split
    · exact inTask.answer _ _
    · exact inTask.trans (receive _ c maxSize)
  · exact released.goTo (by simp)
  · exact refl k
  · exact refl k

theorem deferRelease (k : Kernel) (u : TaskId) :
    Undisturbed t quiet k (taskDeferRelease k u) := by
  have pend : Undisturbed t quiet k { k with
      pendingTask := some u
      pendingStack := if (k.tasks u).guardPageAddr ≠ 0 then (k.tasks u).guardPageAddr
        else (k.tasks u).stackBase } :=
    ofSame rfl id rfl rfl
  unfold taskDeferRelease
  dsimp only
  split
  · exact (pend.trans (updateTask _ u (.inl rfl) rfl rfl)).trans (setState _ u (.inr rfl))
  · exact setState k u (.inr rfl)

theorem exit (k : Kernel) (status : Nat) : Undisturbed t quiet k (taskExitWithStatus k status) := by
  unfold taskExitWithStatus
  split
  · exact (refl k).goTo (by simp)
  next u current =>
  have marked : Undisturbed t quiet k (k.updateTask u ({ · with exitCode := status })) :=
    updateTask k u (.inl rfl) rfl rfl
  have deferred := marked.trans (deferRelease _ u)
  generalize taskDeferRelease _ u = left at deferred
  have listed : Undisturbed t quiet k { left with exited := left.exited ++ [u] } :=
    deferred.trans (ofSame rfl id rfl rfl)
  dsimp only
  cases switched : schedulerYield { left with exited := left.exited ++ [u] } .exiting with
  | none => exact listed.goTo (by simp)
  | some k' => exact listed.trans (schedule (schedule_of_yield switched))

theorem spawn (k : Kernel) (isUser : Bool) (stack : Option Nat) (addressSpace : Bool) :
    Undisturbed t quiet k (spawn k isUser stack addressSpace) := by
  rcases spawn_cases k isUser stack addressSpace with same | ⟨u, spawned⟩
  · rw [same]
    exact refl k
  obtain ⟨_, _, _, _, _, _, same⟩ := spawned.same
  refine ⟨by rw [same]; rfl, by rw [same]; exact id, ?_⟩
  intro _ deadline before
  have apart : t ≠ u := by
    rintro rfl
    exact before.not_unused spawned.unused
  exact before.of_same (by rw [same]) (spawned.others t apart)

/-- Another task goes to sleep. -/
theorem sleep (k : Kernel) (ms : Nat) : Undisturbed t quiet k (taskSleepMs k ms) := by
  unfold taskSleepMs
  split
  · exact refl k
  split
  · exact refl k
  next u current =>
  apply yielded
  apply updateOther
  rintro - deadline asleep rfl
  exact asleep.away current

end Undisturbed

/-! ## Wakers -/

/-- The tasks that a call finds noted as waiters and makes ready if they are blocked. -/
def Kernel.unblocks (k : Kernel) : Event → List TaskId
  | .schedulerUnblockTask t => [t]
  | .ipcSend channel data =>
      match channelIndex channel with
      | some c =>
          if (k.channels c).inUse ∧ data ≠ none ∧ (k.channels c).count < ipcMaxMessages then
            (k.channels c).waitHead.toList
          else []
      | none => []
  | .ipcClose channel =>
      match channelIndex channel with
      | some c => if (k.channels c).inUse then waiters k c else []
      | none => []
  | .pipeRead fd buf _ =>
      match pipeIndex (fd.tdiv 2) with
      | some p =>
          let pipe := k.pipes p
          if buf ∧ (pipe.content ≠ [] ∨ pipe.writeFd ≠ -1 ∧ k.current = none) then
            pipe.writer.toList
          else []
      | none => []
  | .pipeWrite fd data =>
      match pipeIndex ((fd - 1).tdiv 2) with
      | some p =>
          let pipe := k.pipes p
          if data ≠ none ∧ (pipe.content.length < pipeBufferSize ∨ k.current = none) then
            pipe.reader.toList
          else []
      | none => []
  | .pipeClose fd =>
      if fd.tmod 2 = 0 then
        match pipeIndex (fd.tdiv 2) with
        | some p => (k.pipes p).writer.toList
        | none => []
      else
        match pipeIndex ((fd - 1).tdiv 2) with
        | some p => (k.pipes p).reader.toList
        | none => []
  | _ => []

namespace Undisturbed

theorem send (k : Kernel) (channel : Int) (data : Option (List UInt8))
    (calm : quiet → t ∉ k.unblocks (.ipcSend channel data)) :
    Undisturbed t quiet k (ipcSend k channel data) := by
  unfold ipcSend
  split
  · exact (refl k).answer _ _
  next c index =>
  split
  · exact (refl k).answer _ _
  next used =>
  split
  · exact (refl k).answer _ _
  next bytes =>
  split
  · exact (refl k).answer _ _
  next room =>
  refine ((updateChannel k c _).trans (wakeOne _ c ?_)).answer _ _
  intro still member
  apply calm still
  simp only [Kernel.unblocks, index]
  rw [if_pos ⟨by simpa using used, nofun, not_le.mp room⟩]
  simpa using member

theorem close (k : Kernel) (channel : Int)
    (calm : quiet → t ∉ k.unblocks (.ipcClose channel)) :
    Undisturbed t quiet k (ipcClose k channel) := by
  unfold ipcClose
  split
  · exact refl k
  next c index =>
  split
  · exact refl k
  next used =>
  refine ((updateChannel k c _).trans (wakeAll _ _ _ ?_)).trans (updateChannel _ c _)
  intro still member
  apply calm still
  simp only [Kernel.unblocks, index]
  rw [if_pos (by simpa using used)]
  exact member

theorem readPipe (k : Kernel) (fd : Int) (buf : Bool) (count : Nat)
    (calm : quiet → t ∉ k.unblocks (.pipeRead fd buf count)) :
    Undisturbed t quiet k (pipeRead k fd buf count) := by
  unfold pipeRead
  split
  · exact (refl k).answer _ _
  next p index =>
  dsimp only
  split
  · exact (refl k).answer _ _
  next given =>
  split
  · exact (refl k).answer _ _
  next open_ =>
  split
  · exact ((updatePipe k p _).trans (block _ _)).answer _ _
  next other =>
  refine ((updatePipe k p _).trans (wake _ _ ?_)).answer _ _
  intro still member
  apply calm still
  simp only [Kernel.unblocks, index]
  rw [if_pos]
  · simpa using member
  · refine ⟨by simpa using given, ?_⟩
    by_cases empty : (k.pipes p).content = []
    · right
      refine ⟨fun closed => open_ ⟨empty, closed⟩, ?_⟩
      cases current : k.current with
      | none => rfl
      | some u => exact absurd current (other u empty)
    · exact .inl empty

theorem writePipe (k : Kernel) (fd : Int) (data : Option (List UInt8))
    (calm : quiet → t ∉ k.unblocks (.pipeWrite fd data)) :
    Undisturbed t quiet k (pipeWrite k fd data) := by
  unfold pipeWrite
  split
  · exact (refl k).answer _ _
  next p index =>
  dsimp only
  split
  · exact (refl k).answer _ _
  next bytes =>
  have stored : ((k.pipes p).content.length < pipeBufferSize ∨ k.current = none) →
      Undisturbed t quiet k (Sched.wake (k.updatePipe p ({ · with
        content := (k.pipes p).content ++
          bytes.take (pipeBufferSize - (k.pipes p).content.length)
        reader := none })) (k.pipes p).reader) := by
    intro room
    refine (updatePipe k p _).trans (wake _ _ ?_)
    intro still member
    apply calm still
    simp only [Kernel.unblocks, index]
    rw [if_pos ⟨nofun, room⟩]
    simpa using member
  split
  · split
    · exact ((updatePipe k p _).trans (block _ _)).answer _ _
    · next idle => exact (stored (.inr idle)).answer _ _
  · next room => exact (stored (.inl (not_le.mp room))).answer _ _

theorem closePipe (k : Kernel) (fd : Int)
    (calm : quiet → t ∉ k.unblocks (.pipeClose fd)) :
    Undisturbed t quiet k (pipeClose k fd) := by
  unfold pipeClose
  simp only [Kernel.unblocks] at calm
  split
  · next even =>
    rw [if_pos even] at calm
    split
    · exact refl k
    · next p index =>
      refine (updatePipe k p _).trans (wake _ _ ?_)
      intro still member
      apply calm still
      simp only [index]
      simpa using member
  next odd =>
  rw [if_neg odd] at calm
  split
  · exact refl k
  · next p index =>
    refine (updatePipe k p _).trans (wake _ _ ?_)
    intro still member
    apply calm still
    simp only [index]
    simpa using member

end Undisturbed

/-- The deadline has passed, or the task sleeps. -/
structure Rests (k : Kernel) (t : TaskId) (deadline : Nat) : Prop where
  started : k.control ≠ .boot
  state : deadline ≤ timerGetMs k ∨ Asleep k t deadline

theorem Undisturbed.rests (undisturbed : Undisturbed t quiet k k') (rests : Rests k t deadline)
    (calm : timerGetMs k < deadline → Asleep k t deadline → quiet) : Rests k' t deadline := by
  constructor
  · intro boot
    exact rests.started (undisturbed.boot boot)
  · rw [undisturbed.time]
    rcases le_or_gt deadline (timerGetMs k) with passed | early
    · exact .inl passed
    · rcases rests.state with passed | asleep
      · exact .inl passed
      · exact .inr (undisturbed.asleep (calm early asleep) deadline asleep)

/-- A task that is not running is switched away from. -/
theorem schedule_parks {point : Point} (switched : schedulerSchedule k point = some k')
    (current : k.current = some t) (stopped : (k.tasks t).state = .blocked) :
    timerGetMs k' = timerGetMs k ∧ k'.control ≠ .boot ∧ k'.current ≠ some t ∧
      (k'.tasks t).state = .blocked ∧ (k'.tasks t).waitingEvent = (k.tasks t).waitingEvent ∧
      (k'.tasks t).eventData = (k.tasks t).eventData := by
  unfold schedulerSchedule at switched
  split at switched
  · cases switched
  next next found =>
  have ready := findNext_ready found
  have apart : t ≠ next := by
    rintro rfl
    rw [ready] at stopped
    cases stopped
  rw [current] at switched
  split at switched
  · cases switched
  rw [Option.some.injEq] at switched
  rw [← switched]
  refine ⟨rfl, ?_, ?_, ?_⟩
  · simp only [switchTo, contextSwitch]
    split <;> simp
  · intro entered
    exact apart (Option.some.inj entered).symm
  · simp [switchTo, contextSwitch, apart, stopped]

/-- If another task is ready then the current one sleeps until its deadline. -/
theorem taskSleepMs_rests {ms : Nat} (current : k.current = some t) (positive : 0 < ms)
    (other : OtherReady k) (small : timerGetMs k + ms < 2 ^ 64) :
    Rests (taskSleepMs k ms) t (timerGetMs k + ms) := by
  unfold taskSleepMs
  rw [if_neg positive.ne']
  simp only [current, Nat.mod_eq_of_lt small]
  generalize slept : k.updateTask t _ = asleep
  have task : asleep.tasks t = { k.tasks t with
      eventData := timerGetMs k + ms, waitingEvent := taskWaitingSleep, state := .blocked } := by
    rw [← slept, updateTask_tasks, if_pos rfl]
  have same : asleep.current = some t := by
    rw [← slept]
    exact current
  have stillReady : OtherReady asleep := by
    obtain ⟨u, member, different, ready⟩ := other
    subst slept
    refine ⟨u, member, different, ?_⟩
    rw [updateTask_tasks, if_neg]
    · exact ready
    · rintro rfl
      exact different current
  have blocked : (asleep.tasks t).state = .blocked := by rw [task]
  obtain ⟨k', switched⟩ := yield_switches same blocked stillReady .returning
  rw [switched, Option.getD_some]
  obtain ⟨_, started, away, state, waiting, eventData⟩ :=
    schedule_parks (schedule_of_yield switched) same blocked
  refine ⟨started, .inr ⟨away, .inl state, ?_, ?_⟩⟩
  · rw [waiting, task]
  · rw [eventData, task]

theorem timerGetMs_tick (small : (k.timerTicks + 1) * 1000 < 2 ^ 64) :
    timerGetMs k ≤ timerGetMs { k with timerTicks := (k.timerTicks + 1) % 2 ^ 64 } := by
  have before : k.timerTicks * 1000 < 2 ^ 64 :=
    (Nat.mul_le_mul_right 1000 (Nat.le_succ _)).trans_lt small
  have after : k.timerTicks + 1 < 2 ^ 64 :=
    (Nat.le_mul_of_pos_right _ (by decide)).trans_lt small
  simp only [timerGetMs, Nat.mod_eq_of_lt before, Nat.mod_eq_of_lt after,
    Nat.mod_eq_of_lt small]
  exact Nat.div_le_div_right (Nat.mul_le_mul_right 1000 (Nat.le_succ _))

/-- The timer wakes no task before its deadline. -/
theorem timer_rests (rests : Rests k t deadline) (small : (k.timerTicks + 1) * 1000 < 2 ^ 64) :
    Rests (timerHandler k) t deadline := by
  have later := timerGetMs_tick small
  unfold timerHandler
  generalize ticked : ({ k with timerTicks := (k.timerTicks + 1) % 2 ^ 64 } : Kernel) = counted
    at later
  have tick : Rests counted t deadline := by
    constructor
    · rw [← ticked]
      exact rests.started
    · apply rests.state.imp
      · intro passed
        exact passed.trans later
      · intro asleep
        rw [← ticked]
        exact asleep.of_same rfl rfl
  have woken : Rests (taskWakeSleepers counted (timerGetMs counted)) t deadline := by
    refine ⟨tick.started, ?_⟩
    rcases le_or_gt deadline (timerGetMs counted) with passed | early
    · exact .inl passed
    · apply tick.state.imp_right
      intro asleep
      have same : (taskWakeSleepers counted (timerGetMs counted)).tasks t = counted.tasks t := by
        simp only [taskWakeSleepers]
        rw [if_neg]
        intro due
        rw [asleep.eventData] at due
        exact absurd due.2.2 (not_le.mpr early)
      exact asleep.of_same rfl same
  dsimp only
  generalize taskWakeSleepers counted (timerGetMs counted) = awake at woken
  split
  · exact woken
  next u current =>
  have quantum : ∀ remainingQuantum, Undisturbed t True awake
      (awake.updateTask u ({ · with remainingQuantum })) := by
    intro remainingQuantum
    exact Undisturbed.updateTask awake u (.inl rfl) rfl rfl
  split
  · exact ((quantum _).scheduled _).rests woken fun _ _ => trivial
  · exact (quantum _).rests woken fun _ _ => trivial

/-! ## Runs -/

/-- The event is a call of `task_wake_sleepers`. -/
def Event.sweeps : Event → Bool
  | .taskWakeSleepers _ => true
  | _ => false

namespace Console

variable (c : Console)

/-- When a step can happen: interrupts at any time, and calls from the boot code or from a
task outside `keyboard_read_line`.  Only the timer calls `task_wake_sleepers`. -/
def Admits : ConsoleEvent → Prop
  | .kernel event =>
      c.kernel.Enabled event ∧
        (c.Beside event ∨ c.CurrentOutside ∧ event.sweeps = false)
  | event => c.Enabled event

instance : (event : ConsoleEvent) → Decidable (c.Admits event)
  | .kernel event =>
      inferInstanceAs (Decidable (_ ∧ (c.Beside event ∨ c.CurrentOutside ∧ _ = false)))
  | .keyboardHandler scancode => inferInstanceAs (Decidable (c.Enabled (.keyboardHandler scancode)))
  | .keyboardGetKey => inferInstanceAs (Decidable (c.Enabled .keyboardGetKey))
  | .keyboardReadLine maxLen => inferInstanceAs (Decidable (c.Enabled (.keyboardReadLine maxLen)))
  | .execute node => inferInstanceAs (Decidable (c.Enabled (.execute node)))

def Takes (event : ConsoleEvent) (c' : Console) : Prop :=
  c.Admits event ∧ c' = c.after event

/-- The tasks that a step finds noted as waiters. -/
def unblocks : ConsoleEvent → List TaskId
  | .kernel event => c.kernel.unblocks event
  | .keyboardHandler scancode =>
      if (c.keyboardHandler scancode).keyboardWritePos ≠ c.keyboardWritePos then
        c.waitQueue.head?.toList
      else []
  | _ => []

/-- A task sleeps only while another one is ready, no task that sleeps is noted as a waiter
where another one is woken, and the counters do not wrap. -/
def LetsSleep : ConsoleEvent → Prop
  | .kernel (.taskSleepMs ms) =>
      ms = 0 ∨ c.kernel.current = none ∨
        OtherReady c.kernel ∧ timerGetMs c.kernel + ms < 2 ^ 64
  | .kernel .timerHandler => (c.kernel.timerTicks + 1) * 1000 < 2 ^ 64
  | event =>
      ∀ t ∈ c.unblocks event, ∀ deadline, timerGetMs c.kernel < deadline →
        ¬ Asleep c.kernel t deadline

end Console

variable {c c' : Console}

theorem storeKey_undisturbed (c : Console) (key : Char)
    (calm : quiet → (c.storeKey key).keyboardWritePos ≠ c.keyboardWritePos →
      t ∉ c.waitQueue.head?) : Undisturbed t quiet c.kernel (c.storeKey key).kernel := by
  unfold Console.storeKey at calm ⊢
  dsimp only at calm ⊢
  split
  · next room =>
    rw [if_pos room] at calm
    have moved : (c.keyboardWritePos + 1) % 256 ≠ c.keyboardWritePos := by omega
    unfold Console.waitQueueWake at calm ⊢
    dsimp only at calm ⊢
    split
    · exact .refl _
    · next u rest queue =>
      simp only [queue, List.head?_cons] at calm
      apply Undisturbed.unblock
      rintro still rfl
      exact calm still moved rfl
  · exact .refl _

theorem keyboardHandler_undisturbed (c : Console) (scancode : UInt8)
    (calm : quiet → t ∉ c.unblocks (.keyboardHandler scancode)) :
    Undisturbed t quiet c.kernel (c.keyboardHandler scancode).kernel := by
  simp only [Console.unblocks] at calm
  unfold Console.keyboardHandler at calm ⊢
  dsimp only at calm ⊢
  split
  · exact .refl _
  next shift =>
  split
  · exact .refl _
  next plain =>
  rw [if_neg shift, if_neg plain] at calm
  split
  · next code =>
    rw [if_pos code] at calm
    generalize (if c.shiftHeld = true then keyboardScancodeSet1Shift
      else keyboardScancodeSet1).getD (scancode &&& 127).toNat nul = char at calm ⊢
    split
    · next key =>
      rw [if_pos key] at calm
      apply storeKey_undisturbed
      intro still stored member
      apply calm still
      rw [if_pos stored]
      simpa using member
    · exact .refl _
  · exact .refl _

theorem execute_undisturbed (c : Console) (u : TaskId) (node : Bool) :
    Undisturbed t quiet c.kernel (c.execute u node).kernel := by
  unfold Console.execute
  split
  · exact .refl _
  · exact .refl _
  · unfold Console.keyboardGetKey
    split
    · next same =>
      split at same
      · cases same
        exact .refl _
      · cases same
    · next same =>
      split at same
      · cases same
      · cases same
        exact .refl _
  · exact .setState c.kernel u (.inl rfl)
  · unfold Console.waitQueueAdd Console.goto
    dsimp only
    split <;> exact .refl _
  · exact (Undisturbed.refl c.kernel).yielded _
  · exact .refl _
  · split <;> exact .refl _

theorem kernel_rests {event : Event} (rests : Rests c.kernel t deadline)
    (lets : c.LetsSleep (.kernel event)) (admits : c.Admits (.kernel event)) :
    Rests (c.kernel.after event) t deadline := by
  have plain : Undisturbed t True c.kernel (c.kernel.after event) →
      Rests (c.kernel.after event) t deadline := by
    intro undisturbed
    exact undisturbed.rests rests fun _ _ => trivial
  have noted : (∀ u ∈ c.kernel.unblocks event, ∀ deadline, timerGetMs c.kernel < deadline →
        ¬ Asleep c.kernel u deadline) →
      Undisturbed t (t ∉ c.kernel.unblocks event) c.kernel (c.kernel.after event) →
      Rests (c.kernel.after event) t deadline := by
    intro none undisturbed
    apply undisturbed.rests rests
    intro early asleep member
    exact none t member deadline early asleep
  cases event with
  | spawn isUser stack addressSpace => exact plain (.spawn _ _ _ _)
  | schedulerStart => exact absurd admits.1 rests.started
  | schedulerYield => exact plain ((Undisturbed.refl _).yielded _)
  | timerHandler => exact timer_rests rests lets
  | taskSleepMs ms => exact plain (.sleep _ _)
  | taskWakeSleepers now =>
      rcases admits.2 with beside | ⟨_, other⟩
      · cases beside
      · cases other
  | schedulerBlockTask u => exact plain (.block _ _)
  | schedulerUnblockTask u =>
      apply noted lets
      apply Undisturbed.unblock
      rintro calm rfl
      exact calm (List.mem_singleton_self _)
  | ipcCreate => exact plain (.create _)
  | ipcSend channel data => exact noted lets (.send _ _ _ id)
  | ipcRecv channel buf maxSize => exact plain (.recv _ _ _ _)
  | ipcClose channel => exact noted lets (.close _ _ id)
  | pipeCreate => exact plain (.createPipe _)
  | pipeRead fd buf count => exact noted lets (.readPipe _ _ _ _ id)
  | pipeWrite fd data => exact noted lets (.writePipe _ _ _ id)
  | pipeClose fd => exact noted lets (.closePipe _ _ id)
  | taskExitWithStatus status => exact plain (.exit _ _)
  | resume => exact plain (.resumed _)

theorem step_rests {event : ConsoleEvent} (rests : Rests c.kernel t deadline)
    (lets : c.LetsSleep event) (takes : c.Takes event c') : Rests c'.kernel t deadline := by
  obtain ⟨admits, rfl⟩ := takes
  cases event with
  | kernel event => exact kernel_rests rests lets admits
  | keyboardHandler scancode =>
      apply (keyboardHandler_undisturbed c scancode id).rests rests
      intro early asleep member
      exact lets t member deadline early asleep
  | keyboardGetKey =>
      have same : (c.after .keyboardGetKey).kernel = c.kernel := by
        simp only [Console.after, Console.keyboardGetKey]
        split <;> rfl
      rw [same]
      exact rests
  | keyboardReadLine maxLen =>
      have same : (c.after (.keyboardReadLine maxLen)).kernel = c.kernel := by
        simp only [Console.after, Console.keyboardReadLine]
        split
        · split <;> rfl
        · rfl
      rw [same]
      exact rests
  | execute node =>
  simp only [Console.after]
  split
  · next u current =>
    have undisturbed : Undisturbed t True c.kernel (c.execute u node).kernel :=
      execute_undisturbed c u node
    exact undisturbed.rests rests fun _ _ => trivial
  · exact rests

theorem run_rests {events : List ConsoleEvent} (rests : Rests c.kernel t deadline)
    (run : Run (Restrict Console.Takes Console.LetsSleep) c events c') :
    Rests c'.kernel t deadline := by
  induction run with
  | start => exact rests
  | next _ step ih => exact step_rests ih step.1 step.2

/-- A task that sleeps while another one is ready, and that nobody takes for a waiter
meanwhile, does not go on before its time. -/
theorem sleeps_until_deadline {ms : Nat} {events : List ConsoleEvent}
    (current : c.kernel.current = some t) (positive : 0 < ms)
    (lets : c.LetsSleep (.kernel (.taskSleepMs ms)))
    (run : Run (Restrict Console.Takes Console.LetsSleep)
      (c.after (.kernel (.taskSleepMs ms))) events c')
    (back : c'.kernel.current = some t) :
    timerGetMs c.kernel + ms ≤ timerGetMs c'.kernel := by
  have other : OtherReady c.kernel ∧ timerGetMs c.kernel + ms < 2 ^ 64 := by
    rcases lets with zero | idle | other
    · exact absurd zero positive.ne'
    · rw [current] at idle
      cases idle
    · exact other
  have slept : Rests (c.after (.kernel (.taskSleepMs ms))).kernel t (timerGetMs c.kernel + ms) :=
    taskSleepMs_rests current positive other.1 other.2
  rcases (run_rests slept run).state with passed | asleep
  · exact passed
  · exact absurd back asleep.away

/-- Two tasks, of which the first runs. -/
def twoTasks : Console :=
  [.kernel (.spawn false (some 65536) true), .kernel (.spawn false (some 98304) true),
    .kernel .schedulerStart].foldl Console.after (bootConsole 100)

/-- One task sleeps for ten milliseconds, and goes on after a tick. -/
theorem sleeps_until_deadline_tick :
    ∃ c', Run Console.Takes twoTasks
        [.kernel (.taskSleepMs 10), .kernel .timerHandler, .kernel .schedulerYield,
          .kernel .resume] c' ∧
      c'.kernel.current = some 0 ∧ c'.kernel.control = .task ∧
      timerGetMs twoTasks.kernel + 10 ≤ timerGetMs c'.kernel := by
  have admits : Along Console.after Console.Admits twoTasks
      [.kernel (.taskSleepMs 10), .kernel .timerHandler, .kernel .schedulerYield,
        .kernel .resume] := by
    decide +kernel
  have lets : twoTasks.LetsSleep (.kernel (.taskSleepMs 10)) :=
    .inr (.inr (by decide +kernel))
  have later : Along Console.after
      (fun c event => c.LetsSleep event ∧ c.Admits event)
      (twoTasks.after (.kernel (.taskSleepMs 10)))
      [.kernel .timerHandler, .kernel .schedulerYield, .kernel .resume] :=
    ⟨⟨by unfold Console.LetsSleep; decide +kernel, admits.2.1⟩, ⟨nofun, admits.2.2.1⟩,
      ⟨nofun, admits.2.2.2.1⟩, trivial⟩
  have run : Run (Restrict Console.Takes Console.LetsSleep)
      (twoTasks.after (.kernel (.taskSleepMs 10)))
      [.kernel .timerHandler, .kernel .schedulerYield, .kernel .resume]
      ([.kernel .timerHandler, .kernel .schedulerYield, .kernel .resume].foldl Console.after
        (twoTasks.after (.kernel (.taskSleepMs 10)))) := by
    apply (Run.of_along later).mono
    intro _ _ _ taken
    exact ⟨taken.1.1, taken.1.2, taken.2⟩
  have back := sleeps_until_deadline (t := 0) (by decide +kernel) (by decide) lets run
    (by decide +kernel)
  exact ⟨_, Run.of_along admits, by decide +kernel, by decide +kernel, back⟩

/-- With no other task to switch to, the call returns at once. -/
theorem lonely_sleeper_goes_on :
    ∃ c, Run Console.Takes (bootConsole 100)
        [.kernel (.spawn false (some 65536) true), .kernel .schedulerStart,
          .kernel (.taskSleepMs 50)] c ∧
      c.kernel.current = some 0 ∧ c.kernel.control = .task ∧ timerGetMs c.kernel < 50 := by
  have admits : Along Console.after Console.Admits (bootConsole 100)
      [.kernel (.spawn false (some 65536) true), .kernel .schedulerStart,
        .kernel (.taskSleepMs 50)] := by
    decide +kernel
  exact ⟨_, Run.of_along admits, by decide +kernel, by decide +kernel, by decide +kernel⟩

end Charis.Sched
