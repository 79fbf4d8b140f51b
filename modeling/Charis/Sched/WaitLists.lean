import Charis.Lib.Chain
import Charis.Sched.Channels

/-!
# Wait lists

The receivers that wait for a channel are linked through their task structures, with one
link for all channels.  A task is linked while it is inside `ipc_recv`, unless something
else wakes it and it finds a message: then it returns without leaving the list.
-/

namespace Charis.Sched

open Charis.Lib

variable {k k' : Kernel} {lists : ChannelId → List TaskId} {c : ChannelId} {t : TaskId}

/-- The links through which tasks wait. -/
def Kernel.links (k : Kernel) (t : TaskId) : Option TaskId :=
  (k.tasks t).ipcWaitNext

/-- The tasks that are met in the wait list of a channel. -/
def waiters (k : Kernel) (c : ChannelId) : List TaskId :=
  walk k.links taskMaxTasks (k.channels c).waitHead

/-- A task has called `ipc_recv` on a channel, which has not returned to it. -/
def InsideRecv (k : Kernel) (t : TaskId) (c : ChannelId) : Prop :=
  (∃ generation maxSize closes, (k.tasks t).frame.Receives c generation maxSize closes) ∧
    (k.current = some t → k.control = .resuming)

/-- Every wait list ends, a task is linked at most once and in one list only, and only while
it waits for that channel. -/
structure WaitListsSound (k : Kernel) : Prop where
  ends : ∀ c, Chain k.links (k.channels c).waitHead (waiters k c)
  once : ∀ c, (waiters k c).Nodup
  one : ∀ c d t, t ∈ waiters k c → t ∈ waiters k d → c = d
  inside : ∀ c t, t ∈ waiters k c → InsideRecv k t c

@[simp] theorem links_updateTask (k : Kernel) (t : TaskId) (change : Task → Task) :
    (k.updateTask t change).links =
      Function.update k.links t (change (k.tasks t)).ipcWaitNext := by
  funext u
  simp only [Kernel.links, updateTask_tasks, Function.update_apply]
  split <;> rfl

@[simp] theorem links_updateChannel (k : Kernel) (c : ChannelId) (change : Channel → Channel) :
    (k.updateChannel c change).links = k.links :=
  rfl

@[simp] theorem updateChannel_channels (k : Kernel) (c d : ChannelId)
    (change : Channel → Channel) :
    (k.updateChannel c change).channels d =
      if d = c then change (k.channels c) else k.channels d := by
  simp only [Kernel.updateChannel, Function.update_apply]

@[simp] theorem updateTask_channels (k : Kernel) (t : TaskId) (change : Task → Task) :
    (k.updateTask t change).channels = k.channels :=
  rfl

theorem Still.links_eq (still : Still k k') : k'.links = k.links :=
  funext still.links

/-- The lists agree with the links, no task is in two of them, and a slot that is not in use
has nobody waiting. -/
structure Queued (k : Kernel) (lists : ChannelId → List TaskId) : Prop where
  chain : ∀ c, Chain k.links (k.channels c).waitHead (lists c)
  disjoint : ∀ c d t, t ∈ lists c → t ∈ lists d → c = d
  closed : ∀ c, (k.channels c).inUse = false → lists c = []

namespace Queued

theorem waiters_eq (queued : Queued k lists) (c : ChannelId) : waiters k c = lists c := by
  have enough := (queued.chain c).length_le
  rw [Fintype.card_fin] at enough
  exact (queued.chain c).walk_eq enough

theorem same (queued : Queued k lists) (links : k'.links = k.links)
    (waitHead : ∀ c, (k'.channels c).waitHead = (k.channels c).waitHead)
    (closed : ∀ c, (k'.channels c).inUse = false → lists c = []) : Queued k' lists := by
  refine ⟨?_, queued.disjoint, closed⟩
  intro c
  rw [links, waitHead]
  exact queued.chain c

/-- One list is replaced by another, without touching the tasks in the others. -/
theorem replace (queued : Queued k lists) {nodes : List TaskId}
    (chain : Chain k'.links (k'.channels c).waitHead nodes)
    (channels : ∀ d, d ≠ c → k'.channels d = k.channels d)
    (links : ∀ d t, d ≠ c → t ∈ lists d → k'.links t = k.links t)
    (fresh : ∀ d t, d ≠ c → t ∈ nodes → t ∉ lists d)
    (closed : (k'.channels c).inUse = false → nodes = []) :
    Queued k' (Function.update lists c nodes) := by
  constructor
  · intro d
    by_cases same : d = c
    · subst same
      rwa [Function.update_self]
    · rw [Function.update_of_ne same, channels d same]
      exact (queued.chain d).congr fun t member => links d t same member
  · intro d e t
    by_cases first : d = c
    · by_cases second : e = c
      · intro _ _
        rw [first, second]
      · subst first
        rw [Function.update_self, Function.update_of_ne second]
        intro member also
        exact absurd also (fresh e t second member)
    · rw [Function.update_of_ne first]
      by_cases second : e = c
      · subst second
        rw [Function.update_self]
        intro also member
        exact absurd also (fresh d t first member)
      · rw [Function.update_of_ne second]
        exact queued.disjoint d e t
  · intro d idle
    by_cases same : d = c
    · subst same
      rw [Function.update_self]
      exact closed idle
    · rw [Function.update_of_ne same]
      rw [channels d same] at idle
      exact queued.closed d idle

end Queued

/-- A task is taken off a list, from behind another one or from the front. -/
def unlinked (k : Kernel) (c : ChannelId) (target : TaskId) : Option TaskId → Kernel
  | some p =>
      (k.updateTask p ({ · with ipcWaitNext := k.links target })).updateTask target
        ({ · with ipcWaitNext := none })
  | none =>
      (k.updateChannel c ({ · with waitHead := k.links target })).updateTask target
        ({ · with ipcWaitNext := none })

/-- The walk ends at the task that it looks for, with the one before it in hand. -/
theorem ipcUnlink_eq {target : TaskId} {fuel : Nat} {previous waiter : Option TaskId}
    {rest : List TaskId} (chain : Chain k.links waiter rest) (enough : rest.length ≤ fuel) :
    (target ∉ rest ∧ ipcUnlink k c target fuel previous waiter = k) ∨
      ∃ front back, rest = front ++ target :: back ∧
        ipcUnlink k c target fuel previous waiter =
          unlinked k c target (front.getLast?.or previous) := by
  induction fuel generalizing previous waiter rest with
  | zero =>
      rw [Nat.le_zero, List.length_eq_zero_iff] at enough
      subst enough
      exact .inl ⟨List.not_mem_nil, rfl⟩
  | succ fuel ih =>
  cases rest with
  | nil =>
      rw [show waiter = none from chain]
      exact .inl ⟨List.not_mem_nil, rfl⟩
  | cons t rest =>
  rw [chain.1]
  simp only [ipcUnlink]
  split
  · next found =>
    subst found
    right
    refine ⟨[], rest, rfl, ?_⟩
    cases previous <;> rfl
  next other =>
  rcases @ih (some t) _ _ chain.2 (Nat.le_of_succ_le_succ enough) with
    ⟨absent, same⟩ | ⟨front, back, split, same⟩
  · left
    refine ⟨?_, same⟩
    rw [List.mem_cons, not_or]
    exact ⟨fun found => other found.symm, absent⟩
  · right
    refine ⟨t :: front, back, by rw [split]; rfl, ?_⟩
    rw [show ipcUnlink k c target fuel (some t) (k.tasks t).ipcWaitNext = _ from same,
      List.getLast?_cons]
    cases front.getLast? <;> rfl

namespace Queued

/-- `ipc_remove_waiter` takes a task off the list of a channel. -/
theorem remove (queued : Queued k lists) (c : ChannelId) (t : TaskId) :
    Queued (ipcRemoveWaiter k c t) (Function.update lists c ((lists c).erase t)) := by
  have chain := queued.chain c
  have enough := chain.length_le
  have nodup := chain.nodup
  rw [Fintype.card_fin] at enough
  unfold ipcRemoveWaiter
  rcases @ipcUnlink_eq k c t taskMaxTasks none _ _ chain enough with
    ⟨absent, same⟩ | ⟨front, back, split, same⟩
  · rw [same, List.erase_of_not_mem absent, Function.update_eq_self]
    exact queued
  have members : ∀ u ∈ front ++ t :: back, ∀ d, d ≠ c → u ∉ lists d := by
    intro u member d different also
    rw [← split] at member
    exact different (queued.disjoint d c u also member)
  rw [split] at chain nodup
  have before : t ∉ front := by
    intro member
    exact (List.disjoint_of_nodup_append nodup) member (List.mem_cons_self ..)
  rw [same, split, List.erase_append_right _ before, List.erase_cons_head, Option.or_none]
  have rest : ∀ d u, d ≠ c → u ∈ front ++ back → u ∉ lists d := by
    intro d u different member
    apply members u _ d different
    rw [List.mem_append] at member
    rw [List.mem_append, List.mem_cons]
    tauto
  have closed : (k.channels c).inUse = false → front ++ back = [] := by
    intro idle
    have empty := queued.closed c idle
    rw [split] at empty
    simp at empty
  rcases List.eq_nil_or_concat' front with rfl | ⟨front, p, rfl⟩
  · simp only [List.getLast?_nil, unlinked]
    apply queued.replace _ _ _ rest _
    · simpa using chain.pop
    · intro d different
      simp [different]
    · intro d u different member
      have other : u ≠ t := fun same => members t (by simp) d different (same ▸ member)
      simp [other]
    · simpa using closed
  simp only [List.getLast?_append, List.getLast?_singleton, Option.some_or, unlinked]
  rw [List.append_assoc] at chain
  apply queued.replace _ _ _ rest _
  · have unlinked := chain.unlink
    simpa using unlinked
  · intro d different
    rfl
  · intro d u different member
    have other : u ≠ t := fun same => members t (by simp) d different (same ▸ member)
    have after : u ≠ p := fun same => members p (by simp) d different (same ▸ member)
    simp [other, after]
  · exact closed

/-- A task that is in no list is put first in one. -/
theorem push (queued : Queued k lists) (fresh : ∀ d, t ∉ lists d)
    (used : (k.channels c).inUse = true) :
    Queued ((k.updateTask t ({ · with ipcWaitNext := (k.channels c).waitHead })).updateChannel c
      ({ · with waitHead := some t })) (Function.update lists c (t :: lists c)) := by
  apply queued.replace
  · simpa using (queued.chain c).push (fresh c)
  · intro d different
    simp [different]
  · intro d u different member
    have other : u ≠ t := ne_of_mem_of_not_mem member (fresh d)
    simp [other]
  · intro d u different member also
    rw [List.mem_cons] at member
    rcases member with rfl | member
    · exact fresh d also
    · exact different (queued.disjoint d c u also member)
  · intro idle
    simp [used] at idle

/-- The first task of a list is woken and leaves it. -/
theorem wakeOne (queued : Queued k lists) (c : ChannelId) :
    Queued (ipcWakeOne k c) (Function.update lists c (lists c).tail) := by
  have chain := queued.chain c
  unfold ipcWakeOne
  cases members : lists c with
  | nil =>
      rw [members] at chain
      rw [show (k.channels c).waitHead = none from chain, List.tail_nil, ← members,
        Function.update_eq_self]
      exact queued
  | cons waiter rest =>
  rw [members] at chain
  rw [chain.1]
  dsimp only
  generalize moved : (k.updateChannel c _).updateTask waiter _ = k'
  have still := Still.unblock k' waiter
  have left : Queued k' (Function.update lists c rest) := by
    rw [← moved]
    apply queued.replace
    · simpa [Kernel.links] using chain.pop
    · intro d different
      simp [different]
    · intro d u different member
      have other : u ≠ waiter := by
        intro same
        subst same
        exact different (queued.disjoint d c u member (by simp [members]))
      simp [other]
    · intro d u different member also
      exact different (queued.disjoint d c u also (by simp [members, member]))
    · intro idle
      have empty := queued.closed c (by simpa using idle)
      rw [members] at empty
      cases empty
  apply left.same still.links_eq
  · intro d
    rw [still.channels]
  · rw [still.channels]
    exact left.closed

/-- Waking the tasks of a detached list leaves the others alone. -/
theorem wakeAll (queued : Queued k lists) {waiter : Option TaskId} {detached : List TaskId}
    (chain : Chain k.links waiter detached) (away : ∀ t ∈ detached, ∀ d, t ∉ lists d)
    (fuel : Nat) : Queued (ipcWakeAll k fuel waiter) lists := by
  induction fuel generalizing k waiter detached with
  | zero => exact queued
  | succ fuel ih =>
  cases detached with
  | nil =>
      rw [show waiter = none from chain]
      exact queued
  | cons t rest =>
  rw [chain.1]
  simp only [ipcWakeAll]
  have still := Still.unblock (k.updateTask t ({ · with ipcWaitNext := none })) t
  generalize schedulerUnblockTask (k.updateTask t _) t = k' at still
  have links := still.links_eq
  rw [links_updateTask] at links
  have kept : Queued k' lists := by
    refine ⟨?_, queued.disjoint, by rw [still.channels]; exact queued.closed⟩
    intro d
    rw [links, still.channels]
    apply (queued.chain d).congr
    intro u member
    have other : u ≠ t := ne_of_mem_of_not_mem member (away t (by simp) d)
    exact Function.update_of_ne other _ _
  have shorter : Chain k'.links (k.tasks t).ipcWaitNext rest := by
    rw [links]
    exact chain.pop
  exact ih kept shorter fun u member => away u (List.mem_cons_of_mem _ member)

end Queued

/-! ## Who waits -/

/-- The tasks in the lists are receivers that have been switched away from, and the current
task has been entered. -/
structure Lined (k : Kernel) (lists : ChannelId → List TaskId) : Prop where
  queued : Queued k lists
  receiving : ∀ c t, t ∈ lists c → ∃ maxSize closes,
    (k.tasks t).frame.Receives c (k.channels c).generation maxSize closes
  alive : ∀ c t, t ∈ lists c → (k.tasks t).started = true ∧ (k.tasks t).state ≠ .unused
  entered : ∀ t, k.current = some t → (k.tasks t).started = true ∧ (k.tasks t).state ≠ .unused ∧
    (k.control = .resuming → (k.tasks t).state = .running)

/-- And none of them has been returned to. -/
structure Waiting (k : Kernel) (lists : ChannelId → List TaskId) : Prop extends Lined k lists where
  resuming : ∀ c t, t ∈ lists c → k.current = some t → k.control = .resuming

theorem Waiting.sound (waiting : Waiting k lists) : WaitListsSound k := by
  have same := waiting.queued.waiters_eq
  constructor
  · intro c
    rw [same]
    exact waiting.queued.chain c
  · intro c
    rw [same]
    exact (waiting.queued.chain c).nodup
  · intro c d t
    rw [same, same]
    exact waiting.queued.disjoint c d t
  · intro c t
    rw [same]
    intro member
    obtain ⟨maxSize, closes, receives⟩ := waiting.receiving c t member
    exact ⟨⟨_, maxSize, closes, receives⟩, waiting.resuming c t member⟩

/-- What a call that has nothing to do with channels leaves. -/
theorem Waiting.aside (waiting : Waiting k lists) (control : k.control ≠ .resuming)
    (aside : Aside k k') : Waiting k' lists := by
  have alive : ∀ t, (k.tasks t).started = true ∧ (k.tasks t).state ≠ .unused →
      (k'.tasks t).started = true ∧ (k'.tasks t).state ≠ .unused := by
    intro t before
    exact ⟨aside.started t before.2 before.1, fun unused => before.2 (aside.unused t unused)⟩
  have frames : ∀ c t, t ∈ lists c → (k'.tasks t).frame = (k.tasks t).frame := by
    intro c t member
    rcases aside.frames t with same | ⟨current | unused, _⟩
    · exact same
    · exact absurd (waiting.resuming c t member current) control
    · exact absurd unused (waiting.alive c t member).2
  constructor
  · constructor
    · apply waiting.queued.same (funext aside.links)
      · intro c
        rw [aside.channels]
      · rw [aside.channels]
        exact waiting.queued.closed
    · intro c t member
      rw [frames c t member, aside.channels]
      exact waiting.receiving c t member
    · intro c t member
      exact alive t (waiting.alive c t member)
    intro t current
    rcases aside.entered with ⟨same, kept⟩ | ⟨u, current', started, running, _⟩
    · rw [same] at current
      obtain ⟨started, used, _⟩ := waiting.entered t current
      refine ⟨(alive t ⟨started, used⟩).1, (alive t ⟨started, used⟩).2, ?_⟩
      intro resumes
      rw [resumes] at kept
      rcases kept with same | halted
      · exact absurd same.symm control
      · cases halted
    · rw [current', Option.some.injEq] at current
      subst current
      exact ⟨started, by simp [running], fun _ => running⟩
  · intro c t member current
    rcases aside.entered with ⟨same, _⟩ | ⟨u, current', _, _, resumes⟩
    · rw [same] at current
      exact absurd (waiting.resuming c t member current) control
    · rw [current', Option.some.injEq] at current
      subst current
      obtain ⟨maxSize, closes, receives⟩ := waiting.receiving c u member
      exact resumes (waiting.alive c u member).1 _ ((frames c u member).trans receives)

/-- What a change of wait lists leaves, if nobody joins a list. -/
theorem Lined.relinks (lined : Lined k lists) (control : k.control ≠ .resuming)
    (relinks : Relinks k k') {lists' : ChannelId → List TaskId} (queued : Queued k' lists')
    (fewer : ∀ c t, t ∈ lists' c → t ∈ lists c) : Lined k' lists' := by
  refine ⟨queued, ?_, ?_, ?_⟩
  · intro c t member
    obtain ⟨waitHead, same⟩ := relinks.channels c
    rw [relinks.frames, same]
    exact lined.receiving c t (fewer c t member)
  · intro c t member
    obtain ⟨started, used⟩ := lined.alive c t (fewer c t member)
    exact ⟨(relinks.started t).trans started, fun unused => used (relinks.unused t unused)⟩
  · intro t current
    rw [relinks.current] at current
    obtain ⟨started, used, _⟩ := lined.entered t current
    refine ⟨(relinks.started t).trans started, fun unused => used (relinks.unused t unused), ?_⟩
    intro resumes
    rw [relinks.control] at resumes
    exact absurd resumes control

theorem Waiting.relinks (waiting : Waiting k lists) (control : k.control ≠ .resuming)
    (relinks : Relinks k k') {lists' : ChannelId → List TaskId} (queued : Queued k' lists')
    (fewer : ∀ c t, t ∈ lists' c → t ∈ lists c) : Waiting k' lists' := by
  refine ⟨waiting.toLined.relinks control relinks queued fewer, ?_⟩
  intro c t member current
  rw [relinks.current] at current
  exact absurd (waiting.resuming c t (fewer c t member) current) control

theorem Waiting.updateChannel (waiting : Waiting k lists) (c : ChannelId)
    {change : Channel → Channel}
    (generation : (change (k.channels c)).generation = (k.channels c).generation ∨ lists c = [])
    (waitHead : (change (k.channels c)).waitHead = (k.channels c).waitHead)
    (closed : (change (k.channels c)).inUse = false → lists c = []) :
    Waiting (k.updateChannel c change) lists := by
  constructor
  · constructor
    · apply waiting.queued.same (links_updateChannel k c change)
      · intro d
        rw [updateChannel_channels]
        split
        · next same => rw [same, waitHead]
        · rfl
      · intro d
        rw [updateChannel_channels]
        split
        · next same =>
          rw [same]
          exact closed
        · exact waiting.queued.closed d
    · intro d t member
      have kept : ((k.updateChannel c change).channels d).generation =
          (k.channels d).generation := by
        rw [updateChannel_channels]
        split
        · next same =>
          rw [same] at member ⊢
          rcases generation with kept | empty
          · exact kept
          · rw [empty] at member
            cases member
        · rfl
      rw [kept]
      exact waiting.receiving d t member
    · exact waiting.alive
    · exact waiting.entered
  · exact waiting.resuming

theorem Waiting.answer (waiting : Waiting k lists) (value : Int) (data : List UInt8) :
    Waiting (k.answer value data) lists :=
  ⟨⟨⟨waiting.queued.chain, waiting.queued.disjoint, waiting.queued.closed⟩, waiting.receiving,
    waiting.alive, waiting.entered⟩, waiting.resuming⟩

theorem mem_update_tail {d : ChannelId} (member : t ∈ Function.update lists c (lists c).tail d) :
    t ∈ lists d := by
  by_cases same : d = c
  · subst same
    rw [Function.update_self] at member
    exact List.mem_of_mem_tail member
  · rwa [Function.update_of_ne same] at member

theorem mem_update_erase {d : ChannelId} {u : TaskId}
    (member : t ∈ Function.update lists c ((lists c).erase u) d) : t ∈ lists d := by
  by_cases same : d = c
  · subst same
    rw [Function.update_self] at member
    exact List.mem_of_mem_erase member
  · rwa [Function.update_of_ne same] at member

/-- A task that waits for one channel only is in no list once it has left that one. -/
theorem Queued.not_mem_erase (queued : Queued k lists) (only : ∀ d, t ∈ lists d → d = c)
    (d : ChannelId) : t ∉ Function.update lists c ((lists c).erase t) d := by
  by_cases same : d = c
  · subst same
    rw [Function.update_self]
    exact (queued.chain d).nodup.not_mem_erase
  · rw [Function.update_of_ne same]
    intro member
    exact same (only d member)

namespace Waiting

theorem create (waiting : Waiting k lists) : Waiting (ipcCreate k) lists := by
  unfold ipcCreate
  split
  · next c found =>
    have idle := List.find?_some found
    rw [Bool.not_eq_true'] at idle
    have empty := waiting.queued.closed c idle
    have chain := waiting.queued.chain c
    rw [empty] at chain
    have waitHead : none = (k.channels c).waitHead := Eq.symm chain
    exact (waiting.updateChannel c (.inl rfl) waitHead (by simp)).answer _ _
  · exact waiting.answer _ _

theorem send (waiting : Waiting k lists) (control : k.control ≠ .resuming) (channel : Int)
    (data : Option (List UInt8)) : ∃ lists', Waiting (ipcSend k channel data) lists' := by
  unfold ipcSend
  split
  · exact ⟨lists, waiting.answer _ _⟩
  next c _ =>
  split
  · exact ⟨lists, waiting.answer _ _⟩
  next used =>
  split
  · exact ⟨lists, waiting.answer _ _⟩
  split
  · exact ⟨lists, waiting.answer _ _⟩
  dsimp only
  generalize stored : k.updateChannel c _ = k'
  have waiting' : Waiting k' lists := by
    rw [← stored]
    exact waiting.updateChannel c (.inl rfl) rfl (waiting.queued.closed c)
  have control' : k'.control ≠ .resuming := by
    rw [← stored]
    exact control
  have woken := waiting'.relinks control' (.wakeOne k' c) (waiting'.queued.wakeOne c)
    fun _ _ => mem_update_tail
  exact ⟨_, woken.answer _ _⟩

theorem close (waiting : Waiting k lists) (control : k.control ≠ .resuming) (channel : Int) :
    ∃ lists', Waiting (ipcClose k channel) lists' := by
  unfold ipcClose
  split
  · exact ⟨lists, waiting⟩
  next c _ =>
  split
  · exact ⟨lists, waiting⟩
  dsimp only
  generalize detached : k.updateChannel c _ = k'
  refine ⟨Function.update lists c [], ?_⟩
  have emptied : Queued k' (Function.update lists c []) := by
    rw [← detached]
    apply waiting.queued.replace
    · rw [updateChannel_channels, if_pos rfl]
      rfl
    · intro d different
      rw [updateChannel_channels, if_neg different]
    · intro _ _ _ _
      rfl
    · intro _ _ _ member
      cases member
    · intro _
      rfl
  have members : ∀ d t, t ∈ Function.update lists c [] d → d ≠ c ∧ t ∈ lists d := by
    intro d t member
    by_cases same : d = c
    · subst same
      rw [Function.update_self] at member
      cases member
    · rw [Function.update_of_ne same] at member
      exact ⟨same, member⟩
  have waiting' : Waiting k' (Function.update lists c []) := by
    rw [← detached] at emptied ⊢
    refine ⟨⟨emptied, ?_, ?_, waiting.entered⟩, ?_⟩
    · intro d t member
      obtain ⟨different, member⟩ := members d t member
      rw [updateChannel_channels, if_neg different]
      exact waiting.receiving d t member
    · intro d t member
      exact waiting.alive d t (members d t member).2
    · intro d t member
      exact waiting.resuming d t (members d t member).2
  have control' : k'.control ≠ .resuming := by
    rw [← detached]
    exact control
  have chain : Chain k'.links (k.channels c).waitHead (lists c) := by
    rw [← detached]
    exact waiting.queued.chain c
  have away : ∀ t ∈ lists c, ∀ d, t ∉ Function.update lists c [] d := by
    intro t member d also
    obtain ⟨different, also⟩ := members d t also
    exact different (waiting.queued.disjoint d c t also member)
  have woken := waiting'.relinks control' (.wakeAll k' taskMaxTasks (k.channels c).waitHead)
    (emptied.wakeAll chain away taskMaxTasks) fun _ _ => id
  exact woken.updateChannel c (.inl rfl) rfl fun _ => Function.update_self ..

end Waiting

/-- The current task leaves the list and goes on. -/
theorem Queued.giveUp (queued : Queued k lists) (c : ChannelId) (t : TaskId) :
    Queued ((ipcRemoveWaiter k c t).setState t .running)
      (Function.update lists c ((lists c).erase t)) := by
  have removed := queued.remove c t
  have still : Still (ipcRemoveWaiter k c t) ((ipcRemoveWaiter k c t).setState t .running) :=
    .setState _ t (by simp)
  apply removed.same still.links_eq
  · intro d
    rw [still.channels]
  · rw [still.channels]
    exact removed.closed

/-- `ipc_recv` puts the current task in the list before it blocks. -/
theorem Queued.wait (queued : Queued k lists) (only : ∀ d, t ∈ lists d → d = c)
    (used : (k.channels c).inUse = true) :
    Queued (ipcWait k t c) (Function.update lists c (t :: (lists c).erase t)) := by
  have removed := queued.remove c t
  have kept : ((ipcRemoveWaiter k c t).channels c).inUse = true := by
    obtain ⟨waitHead, same⟩ := (Relinks.removeWaiter k c t).channels c
    rw [same]
    exact used
  have pushed := removed.push (queued.not_mem_erase only) kept
  rw [Function.update_self, Function.update_idem] at pushed
  unfold ipcWait schedulerBlockTask
  dsimp only
  generalize Kernel.updateChannel _ c _ = k' at pushed ⊢
  have still : Still k' (k'.setState t .blocked) := .setState k' t (by simp)
  apply pushed.same still.links_eq
  · intro d
    rw [still.channels]
  · rw [still.channels]
    exact pushed.closed

/-- Where a task is put first in a list, the lists hold it and those that they held before. -/
theorem mem_update_first {t u : TaskId} {c d : ChannelId} (only : ∀ d, t ∈ lists d → d = c)
    (member : u ∈ Function.update lists c (t :: (lists c).erase t) d) :
    u = t ∧ d = c ∨ u ≠ t ∧ u ∈ lists d := by
  by_cases own : u = t
  · left
    refine ⟨own, ?_⟩
    by_contra different
    rw [Function.update_of_ne different, own] at member
    exact different (only d member)
  · right
    refine ⟨own, ?_⟩
    by_cases same : d = c
    · subst same
      rw [Function.update_self, List.mem_cons] at member
      exact List.mem_of_mem_erase (member.resolve_left own)
    · rwa [Function.update_of_ne same] at member

/-- A round of the wait loop: the task takes a message, which it may do only if it is in no
list, or it joins the list and is switched away from, or it leaves the list again. -/
theorem Lined.receive (lined : Lined k lists) (control : k.control = .task ∨ k.control = .boot)
    (only : ∀ t, k.current = some t → ∀ d, t ∈ lists d → d = c ∧ (k.channels c).count = 0)
    (used : (k.channels c).inUse = true) (maxSize : Nat) :
    ∃ lists', Waiting (ipcReceive k c maxSize) lists' := by
  have awake : k.control ≠ .resuming := by
    rcases control with control | control <;> rw [control] <;> nofun
  unfold ipcReceive
  split
  · next filled =>
    have outside : Waiting k lists := by
      refine ⟨lined, ?_⟩
      intro d t member current
      exact absurd (only t current d member).2 filled
    exact ⟨lists, (outside.updateChannel c (.inl rfl) rfl (outside.queued.closed c)).answer _ _⟩
  split
  · next idle =>
    have outside : Waiting k lists := by
      refine ⟨lined, ?_⟩
      intro d t _ current
      rw [idle] at current
      cases current
    exact ⟨lists, outside.answer _ _⟩
  next t current =>
  have only := fun d member => (only t current d member).1
  have queued := lined.queued.wait only used
  have relinks := Relinks.wait k t c
  obtain ⟨waitHead, kept⟩ := relinks.channels c
  dsimp only
  generalize ipcWait k t c = blocked at queued relinks kept ⊢
  have alive : ∀ d u, u ∈ Function.update lists c (t :: (lists c).erase t) d →
      (blocked.tasks u).started = true ∧ (blocked.tasks u).state ≠ .unused := by
    intro d u member
    have before : (k.tasks u).started = true ∧ (k.tasks u).state ≠ .unused := by
      rcases mem_update_first only member with ⟨rfl, _⟩ | ⟨_, member⟩
      · exact ⟨(lined.entered u current).1, (lined.entered u current).2.1⟩
      · exact lined.alive d u member
    exact ⟨(relinks.started u).trans before.1, fun unused => before.2 (relinks.unused u unused)⟩
  have current' : blocked.current = some t := relinks.current.trans current
  split
  · next k' switched =>
    have switches := schedule_switches (schedule_of_yield switched)
    obtain ⟨next, other, entered, started, running, resumes⟩ := switches.enters
    have receiving : ∀ d u, u ∈ Function.update lists c (t :: (lists c).erase t) d →
        ∃ maxSize closes,
          (k'.tasks u).frame.Receives d (k'.channels d).generation maxSize closes := by
      intro d u member
      rw [switches.channels]
      rcases mem_update_first only member with ⟨rfl, rfl⟩ | ⟨different, member⟩
      · rw [switches.saved u current', kept]
        exact ⟨_, _, rfl⟩
      · have away : blocked.current ≠ some u := by
          rw [current', ne_eq, Option.some.injEq]
          exact different.symm
        obtain ⟨_, same⟩ := relinks.channels d
        rw [switches.frames u away, relinks.frames, same]
        exact lined.receiving d u member
    refine ⟨_, ⟨?_, receiving, ?_, ?_⟩, ?_⟩
    · apply queued.same (funext switches.links)
      · intro d
        rw [switches.channels]
      · rw [switches.channels]
        exact queued.closed
    · intro d u member
      obtain ⟨started, used⟩ := alive d u member
      exact ⟨switches.started u started, fun unused => used (switches.unused u unused)⟩
    · intro u now
      rw [entered, Option.some.injEq] at now
      subst now
      exact ⟨started, by simp [running], fun _ => running⟩
    · intro d u member now
      rw [entered, Option.some.injEq] at now
      subst now
      obtain ⟨_, _, receives⟩ := receiving d next member
      exact resumes (alive d next member).1 _ receives
  have left := queued.giveUp c t
  rw [Function.update_self, List.erase_cons_head, Function.update_idem] at left
  have gone := lined.queued.not_mem_erase only
  have relinks := relinks.trans (.giveUp blocked t c)
  have lined' := lined.relinks awake relinks left fun _ _ => mem_update_erase
  have outside : Waiting ((ipcRemoveWaiter blocked c t).setState t .running)
      (Function.update lists c ((lists c).erase t)) := by
    refine ⟨lined', ?_⟩
    intro d u member now
    rw [relinks.current, current, Option.some.injEq] at now
    subst now
    exact absurd member (gone d)
  exact ⟨_, outside.answer _ _⟩

/-- The current task is in no list outside `ipc_recv`. -/
theorem Waiting.recv (waiting : Waiting k lists) (control : k.control = .task ∨ k.control = .boot)
    (channel : Int) (buf : Bool) (maxSize : Nat) :
    ∃ lists', Waiting (ipcRecv k channel buf maxSize) lists' := by
  unfold ipcRecv
  split
  · exact ⟨lists, waiting.answer _ _⟩
  split
  · exact ⟨lists, waiting.answer _ _⟩
  next used =>
  split
  · exact ⟨lists, waiting.answer _ _⟩
  split
  · exact ⟨lists, waiting.answer _ _⟩
  apply waiting.toLined.receive control _ (by simpa using used)
  intro t current d member
  have resuming := waiting.resuming d t member current
  rw [resuming] at control
  rcases control with task | boot
  · cases task
  · cases boot

/-! ## Going on in a task -/

/-- A receiver that is switched back to finds no message while it is in the wait list. -/
def Detached (k : Kernel) : Event → Prop
  | .resume => ∀ t c generation maxSize closes, k.current = some t →
      (k.tasks t).frame.Receives c generation maxSize closes → t ∈ waiters k c →
      (k.channels c).count = 0
  | _ => True

theorem Lined.release (lined : Lined k lists) {control : Control} (awake : control ≠ .resuming) :
    Lined { taskReleasePending k with control } lists := by
  have moved : Lined { k with control } lists := by
    refine ⟨⟨lined.queued.chain, lined.queued.disjoint, lined.queued.closed⟩, lined.receiving,
      lined.alive, ?_⟩
    intro t current
    obtain ⟨started, used, _⟩ := lined.entered t current
    exact ⟨started, used, fun resumes => absurd resumes awake⟩
  have still := Still.releaseTo k control
  apply moved.relinks awake (.of_still still) _ fun _ _ => id
  apply moved.queued.same still.links_eq
  · intro c
    rw [still.channels]
  · rw [still.channels]
    exact moved.queued.closed

/-- A task that is not in `ipc_recv` is returned to. -/
theorem Waiting.release (waiting : Waiting k lists) {control : Control}
    (awake : control ≠ .resuming) (current : k.current = some t)
    (outside : ∀ c generation maxSize closes,
      ¬ (k.tasks t).frame.Receives c generation maxSize closes) :
    Waiting { taskReleasePending k with control } lists := by
  refine ⟨waiting.toLined.release awake, ?_⟩
  intro c u member now
  have same : (taskReleasePending k).current = some u := now
  rw [(Still.releasePending k).current, current, Option.some.injEq] at same
  subst same
  obtain ⟨_, _, receives⟩ := waiting.receiving c t member
  exact absurd receives (outside _ _ _ _)

/-- The frame of a receiver says which list it may be in. -/
theorem Waiting.receives (waiting : Waiting k lists) {generation maxSize closes : Nat}
    (frame : (k.tasks t).frame.Receives c generation maxSize closes) {d : ChannelId}
    (member : t ∈ lists d) : d = c ∧ (k.channels c).generation = generation := by
  obtain ⟨_, _, receives⟩ := waiting.receiving d t member
  unfold Frame.Receives at receives frame
  rw [frame] at receives
  cases receives
  exact ⟨rfl, rfl⟩

theorem Waiting.resumed (waiting : Waiting k lists) (detached : Detached k .resume) :
    ∃ lists', Waiting (resume k) lists' := by
  unfold resume
  split
  · exact ⟨lists, waiting⟩
  next t current =>
  split
  · next frame =>
    refine ⟨lists, waiting.release (by simp) current ?_⟩
    simp [Frame.Receives, frame]
  · next c generation maxSize closes frame =>
    have belongs := fun d => @Waiting.receives k lists c t waiting _ _ _ frame d
    have empty : t ∈ lists c → (k.channels c).count = 0 := by
      rw [← waiting.queued.waiters_eq]
      exact detached t c generation maxSize closes current frame
    have still := Still.releaseTo k .task
    have lined := @Lined.release k lists waiting.toLined .task (by simp)
    have control : ({ taskReleasePending k with control := .task } : Kernel).control = .task := rfl
    generalize ({ taskReleasePending k with control := .task } : Kernel) = k'
      at still lined control ⊢
    have current' : k'.current = some t := still.current.trans current
    have awake : k'.control ≠ .resuming := by
      rw [control]
      intro resuming
      cases resuming
    unfold ipcResume
    split
    · have lined' := lined.relinks awake (.giveUp k' t c) (lined.queued.giveUp c t)
        fun _ _ => mem_update_erase
      have outside : Waiting ((ipcRemoveWaiter k' c t).setState t .running)
          (Function.update lists c ((lists c).erase t)) := by
        refine ⟨lined', ?_⟩
        intro d u member now
        rw [(Relinks.giveUp k' t c).current, current', Option.some.injEq] at now
        subst now
        exact absurd member (lined.queued.not_mem_erase (fun d member => (belongs d member).1) d)
      exact ⟨_, outside.answer _ _⟩
    split
    · next stale =>
      have outside : Waiting k' lists := by
        refine ⟨lined, ?_⟩
        intro d u member now
        rw [current', Option.some.injEq] at now
        subst now
        obtain ⟨rfl, same⟩ := belongs d member
        rw [still.channels] at stale
        rcases stale with idle | different
        · rw [waiting.queued.closed d (by simpa using idle)] at member
          cases member
        · exact absurd same different
      exact ⟨lists, outside.answer _ _⟩
    next fresh =>
    rw [not_or] at fresh
    apply lined.receive (.inl control) _ (by simpa using fresh.1)
    intro u now d member
    rw [current', Option.some.injEq] at now
    subst now
    obtain ⟨rfl, _⟩ := belongs d member
    rw [still.channels]
    exact ⟨rfl, empty member⟩
  · next frame =>
    refine ⟨lists, waiting.release (by simp) current ?_⟩
    simp [Frame.Receives, frame]
  · exact ⟨lists, waiting⟩
  · exact ⟨lists, waiting⟩

theorem releasePending_blocked
    (blocked : ((taskReleasePending k).tasks t).state = .blocked) :
    (k.tasks t).state = .blocked := by
  unfold taskReleasePending at blocked
  split at blocked
  · exact blocked
  obtain ⟨owner, released, invalid, same⟩ :=
    kfree_eq { k with pendingStack := 0, pendingTask := none } k.pendingStack
  rw [same] at blocked
  dsimp only at blocked
  split at blocked
  · next pending _ =>
    by_cases own : t = pending
    · simp [own] at blocked
    · simpa [own] using blocked
  · exact blocked

/-- A receiver that finds a message while it is in the wait list returns and stays there. -/
theorem Waiting.resumed_linked (waiting : Waiting k lists) (control : k.control = .resuming)
    (linked : ¬ Detached k .resume) : ¬ WaitListsSound (resume k) := by
  simp only [Detached, not_forall] at linked
  obtain ⟨t, c, generation, maxSize, closes, current, frame, member, filled⟩ := linked
  have awake : ((taskReleasePending k).tasks t).state ≠ .blocked := by
    intro blocked
    have running := (waiting.entered t current).2.2 control
    rw [releasePending_blocked blocked] at running
    cases running
  have linked := member
  rw [waiting.queued.waiters_eq] at linked
  obtain ⟨_, same⟩ := waiting.receives frame linked
  have used : (k.channels c).inUse = true := by
    by_contra idle
    rw [waiting.queued.closed c (by simpa using idle)] at linked
    cases linked
  have still := Still.releaseTo k .task
  simp only [resume, current, show (k.tasks t).frame = _ from frame]
  have task : ({ taskReleasePending k with control := .task } : Kernel).control = .task := rfl
  change (({ taskReleasePending k with control := .task } : Kernel).tasks t).state ≠ _ at awake
  generalize ({ taskReleasePending k with control := .task } : Kernel) = k'
    at still task awake ⊢
  have fresh : ¬ ((!(k'.channels c).inUse) = true ∨ (k'.channels c).generation ≠ generation) := by
    rw [still.channels, not_or, not_not]
    exact ⟨by simpa using used, same⟩
  have filled' : (k'.channels c).count ≠ 0 := by
    rw [still.channels]
    exact filled
  rw [ipcResume, if_neg awake, if_neg fresh, ipcReceive, if_pos filled']
  intro sound
  -- taking the message has left the wait list alone
  have member' : t ∈ waiters (ipcTake k' c maxSize) c := by
    have kept : waiters (ipcTake k' c maxSize) c = waiters k c := by
      have waitHead : ((ipcTake k' c maxSize).channels c).waitHead = (k.channels c).waitHead := by
        simp [ipcTake, Kernel.answer, still.channels]
      have links : (ipcTake k' c maxSize).links = k.links := still.links_eq
      rw [waiters, waitHead, links, waiters]
    rwa [kept]
  have resuming := (sound.inside c t member').2 (still.current.trans current)
  rw [show (ipcTake k' c maxSize).control = .task from task] at resuming
  cases resuming

/-- Only the rest of a switch happens just after one. -/
theorem not_resuming {event : Event} (enabled : k.Enabled event) (other : event ≠ .resume) :
    k.control ≠ .resuming := by
  intro control
  cases event <;> simp_all [Kernel.Enabled]

theorem step_waits (waiting : Waiting k lists) {event : Event} (detached : Detached k event)
    (step : Step k event k') : ∃ lists', Waiting k' lists' := by
  obtain ⟨enabled, rfl⟩ := step
  have awake := not_resuming enabled
  cases event with
  | spawn isUser stack addressSpace =>
      exact ⟨lists, waiting.aside (awake nofun) (spawn_aside k isUser stack addressSpace)⟩
  | schedulerStart => exact ⟨lists, waiting.aside (awake nofun) (start_aside k)⟩
  | schedulerYield =>
      exact ⟨lists, waiting.aside (awake nofun) (yield_aside (.refl k) (by simp))⟩
  | timerHandler => exact ⟨lists, waiting.aside (awake nofun) (timer_aside k)⟩
  | taskSleepMs ms => exact ⟨lists, waiting.aside (awake nofun) (sleep_aside k ms)⟩
  | taskWakeSleepers now =>
      exact ⟨lists, waiting.aside (awake nofun) (Still.sleepers k now).aside⟩
  | schedulerBlockTask t =>
      exact ⟨lists, waiting.aside (awake nofun) (Still.setState k t (by simp)).aside⟩
  | schedulerUnblockTask t =>
      exact ⟨lists, waiting.aside (awake nofun) (Still.unblock k t).aside⟩
  | ipcCreate => exact ⟨lists, waiting.create⟩
  | ipcSend channel data => exact waiting.send (awake nofun) channel data
  | ipcRecv channel buf maxSize => exact waiting.recv (Or.symm enabled) channel buf maxSize
  | ipcClose channel => exact waiting.close (awake nofun) channel
  | pipeCreate => exact ⟨lists, waiting.aside (awake nofun) (Still.createPipe k).aside⟩
  | pipeRead fd buf count =>
      exact ⟨lists, waiting.aside (awake nofun) (Still.readPipe k fd buf count).aside⟩
  | pipeWrite fd data =>
      exact ⟨lists, waiting.aside (awake nofun) (Still.writePipe k fd data).aside⟩
  | pipeClose fd =>
      exact ⟨lists, waiting.aside (awake nofun) (Still.closePipe k fd).aside⟩
  | taskExitWithStatus status =>
      exact ⟨lists, waiting.aside (awake nofun) (exit_aside k status)⟩
  | resume => exact waiting.resumed detached

theorem run_waits {timerFrequencyHz : Nat} {events : List Event}
    (run : Run (Restrict Step Detached) (bootKernel timerFrequencyHz) events k) :
    ∃ lists, Waiting k lists := by
  have keeps : ∀ k (event : Event) k', (∃ lists, Waiting k lists) → True →
      Restrict Step Detached k event k' → ∃ lists, Waiting k' lists := by
    intro k event k' waits _ step
    obtain ⟨lists, waiting⟩ := waits
    exact step_waits waiting step.1 step.2
  apply run.invariant keeps _ fun _ _ => trivial
  refine ⟨fun _ => [], ⟨⟨⟨fun _ => rfl, ?_, fun _ _ => rfl⟩, ?_, ?_, ?_⟩, ?_⟩⟩
  · intro _ _ _ member
    cases member
  · intro _ _ member
    cases member
  · intro _ _ member
    cases member
  · intro _ current
    cases current
  · intro _ _ member
    cases member

/-- As long as no receiver finds a message while it is in a wait list, the wait lists are
sound, and whoever a send wakes is inside `ipc_recv` on that channel.  The first receiver that
does returns without leaving the list. -/
theorem wait_lists_sound {timerFrequencyHz : Nat} {events : List Event}
    (run : Run (Restrict Step Detached) (bootKernel timerFrequencyHz) events k) :
    WaitListsSound k ∧
      (∀ c t, (k.channels c).waitHead = some t → InsideRecv k t c) ∧
      ∀ event k', Step k event k' → ¬ Detached k event → ¬ WaitListsSound k' := by
  obtain ⟨lists, waiting⟩ := run_waits run
  refine ⟨waiting.sound, ?_, ?_⟩
  · intro c t first
    apply waiting.sound.inside c t
    simp [waiters, first, walk]
  · intro event k' step linked
    obtain ⟨enabled, rfl⟩ := step
    cases event with
    | resume => exact waiting.resumed_linked enabled linked
    | _ => exact absurd trivial linked

/-- A receiver waits, and a message is sent to it. -/
def wokenReceiverEvents : List Event :=
  [.spawn false (some 65536) true, .spawn false (some 98304) true, .schedulerStart, .ipcCreate,
    .ipcRecv 0 true 8, .ipcSend 0 (some [7]), .schedulerYield, .resume]

theorem wait_lists_sound_woken :
    ∃ k, Run (Restrict Step Detached) (bootKernel 100) wokenReceiverEvents k ∧
      k.reply.data = [7] ∧ WaitListsSound k := by
  have along : Along Kernel.after Kernel.Enabled (bootKernel 100) wokenReceiverEvents := by
    decide +kernel
  have detached : Along Kernel.after Detached (bootKernel 100) wokenReceiverEvents := by
    refine ⟨trivial, trivial, trivial, trivial, trivial, trivial, trivial, ?_, trivial⟩
    intro t c generation maxSize closes current frame member
    have first : some (0 : TaskId) = some t := current
    rw [Option.some.injEq] at first
    subst first
    have channel : Frame.suspended (.receiving 0 1 8 0) =
        .suspended (.receiving c generation maxSize closes) := frame
    cases channel
    revert member
    decide +kernel
  have run := Run.of_along (along.and detached)
  have run' : Run (Restrict Step Detached) (bootKernel 100) wokenReceiverEvents
      (wokenReceiverEvents.foldl Kernel.after (bootKernel 100)) := by
    apply run.mono
    intro _ _ _ taken
    exact ⟨taken.1.2, taken.1.1, taken.2⟩
  exact ⟨_, run', by decide +kernel, (wait_lists_sound run').1⟩

/-- Two receivers wait.  A message is sent, which wakes the second, and something else wakes
the first.  It takes the message and returns, and is still the one that the next message
would wake. -/
theorem woken_receiver_stays_linked :
    ∃ k, Run Step (bootKernel 100)
        [.spawn false (some 65536) true, .spawn false (some 98304) true,
          .spawn false (some 131072) true, .schedulerStart, .ipcCreate, .ipcRecv 0 true 8,
          .ipcRecv 0 true 8, .ipcSend 0 (some [7]), .schedulerUnblockTask 0, .schedulerYield,
          .resume] k ∧
      k.current = some 0 ∧ k.control = .task ∧ k.reply.data = [7] ∧ waiters k 0 = [0] ∧
      ¬ WaitListsSound k := by
  have along : Along Kernel.after Kernel.Enabled (bootKernel 100)
      [.spawn false (some 65536) true, .spawn false (some 98304) true,
        .spawn false (some 131072) true, .schedulerStart, .ipcCreate, .ipcRecv 0 true 8,
        .ipcRecv 0 true 8, .ipcSend 0 (some [7]), .schedulerUnblockTask 0, .schedulerYield,
        .resume] := by
    decide +kernel
  refine ⟨_, Run.of_along along, by decide +kernel, by decide +kernel, by decide +kernel,
    by decide +kernel, ?_⟩
  intro sound
  have resuming := (sound.inside 0 0 (by decide +kernel)).2 (by decide +kernel)
  revert resuming
  decide +kernel

end Charis.Sched
