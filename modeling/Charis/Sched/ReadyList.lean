import Charis.Lib.Circle
import Charis.Sched.Scheduler

/-!
# The scheduler's list of tasks

`kernel/scheduler.c` keeps the tasks in a doubly linked list through the tasks
themselves and searches it with a loop that starts behind the current task, goes on
at the head and stops where it began.  The model of the whole scheduler works on the
list of tasks instead; here the pointers are shown to describe such a list, and the
loop to look at the tasks in the order of that model.
-/

namespace Charis.Sched

open Charis.Lib

/-- The static pointers of `scheduler.c` and the fields of the tasks that it uses. -/
structure ReadyList (T : Type*) where
  readyHead : Option T
  readyTail : Option T
  next : T → Option T
  prev : T → Option T
  state : T → TaskState

namespace ReadyList

variable {T : Type*}

section Code

variable [DecidableEq T]

/-- `enqueue_task`, for a task that is not null. -/
def enqueueTask (list : ReadyList T) (task : T) : ReadyList T :=
  let list := { list with
    next := Function.update list.next task none
    prev := Function.update list.prev task list.readyTail }
  match list.readyTail with
  | some tail =>
      { list with
        next := Function.update list.next tail (some task)
        readyTail := some task }
  | none => { list with readyHead := some task, readyTail := some task }

/-- `scheduler_init`, for the lists only. -/
def schedulerInit (list : ReadyList T) : ReadyList T :=
  { list with readyHead := none, readyTail := none }

/-- `scheduler_add_task`. -/
def schedulerAddTask (list : ReadyList T) : Option T → ReadyList T
  | none => list
  | some task =>
      enqueueTask { list with state := Function.update list.state task .ready } task

/-- The `do` loop of `scheduler_find_next`, for a number of rounds; nothing when they
are not enough. -/
def findLoop (list : ReadyList T) (first : T) : (rounds : Nat) → T → Option (Option T)
  | 0, _ => none
  | rounds + 1, iter =>
      if list.state iter = .ready then some (some iter)
      else
        match (list.next iter).or list.readyHead with
        | none => some none
        | some iter => if iter = first then some none else findLoop list first rounds iter

/-- `scheduler_find_next`. -/
def schedulerFindNext (list : ReadyList T) (current : Option T) (rounds : Nat) :
    Option (Option T) :=
  match list.readyHead with
  | none => some none
  | some head =>
      let iter := match current with
        | some task => list.next task
        | none => some head
      let iter := iter.getD head
      findLoop list iter rounds iter

end Code

/-- The pointers describe a list of tasks, forwards and backwards. -/
structure Links (list : ReadyList T) (tasks : List T) : Prop where
  forward : Chain list.next list.readyHead tasks
  backward : Chain list.prev list.readyTail tasks.reverse

variable {list : ReadyList T} {tasks : List T} {task : T}

theorem links_schedulerInit (list : ReadyList T) : Links (schedulerInit list) [] := by
  constructor
  · rfl
  · rfl

/-- The last task of the list is the one that `ready_tail` points to. -/
theorem Links.tail (links : Links list tasks) : list.readyTail = tasks.getLast? := by
  have backward := links.backward
  rw [List.getLast?_eq_head?_reverse]
  cases reversed : tasks.reverse with
  | nil =>
      rw [reversed] at backward
      exact backward
  | cons last rest =>
      rw [reversed] at backward
      exact backward.1

/-- States of tasks are not part of the list. -/
theorem Links.setState (links : Links list tasks) (state : T → TaskState) :
    Links { list with state } tasks :=
  ⟨links.forward, links.backward⟩

variable [DecidableEq T]

/-- A new task is linked behind the last one. -/
theorem Links.enqueue (links : Links list tasks) (fresh : task ∉ tasks) :
    Links (enqueueTask list task) (tasks ++ [task]) := by
  have tail := links.tail
  have behind : task ∉ tasks.reverse := by
    rw [List.mem_reverse]
    exact fresh
  have backward := links.backward.push behind
  rcases List.eq_nil_or_concat tasks with rfl | ⟨front, last, rfl⟩
  · have empty : list.readyTail = none := tail
    rw [empty] at backward
    simp only [enqueueTask, empty]
    constructor
    · have last : Function.update list.next task none task = none := Function.update_self ..
      exact ⟨rfl, last⟩
    · exact backward
  · rw [List.concat_eq_append] at *
    rw [List.getLast?_concat] at tail
    rw [tail] at backward
    simp only [enqueueTask, tail]
    constructor
    · have forward := links.forward.snoc fresh
      rw [List.append_assoc]
      exact forward
    · rw [List.reverse_append]
      exact backward

/-- Adding tasks one after the other, none of them twice. -/
theorem Links.addAll (links : Links list tasks) {added : List T} (distinct : added.Nodup)
    (fresh : ∀ task ∈ added, task ∉ tasks) :
    Links (added.foldl (fun list task => schedulerAddTask list (some task)) list)
      (tasks ++ added) := by
  induction added generalizing list tasks with
  | nil =>
      rw [List.append_nil]
      exact links
  | cons task added ih =>
  have enqueued := (links.setState (Function.update list.state task .ready)).enqueue
    (fresh task List.mem_cons_self)
  obtain ⟨once, later⟩ := List.nodup_cons.mp distinct
  have rest := ih enqueued later (by
    intro other member
    rw [List.mem_append, List.mem_singleton, not_or]
    exact ⟨fresh other (List.mem_cons_of_mem _ member), ne_of_mem_of_not_mem member once⟩)
  rw [List.append_assoc, List.singleton_append] at rest
  exact rest

/-- The loop looks at the tasks of a circle, each of them once. -/
theorem findLoop_eq {first iter : T} {rest : List T} {rounds : Nat}
    (circle : Circle (wrap list.next list.readyHead) first (iter :: rest))
    (fresh : first ∉ rest) (enough : rest.length < rounds) :
    findLoop list first rounds iter =
      some ((iter :: rest).find? fun task => list.state task = .ready) := by
  induction rest generalizing iter rounds with
  | nil =>
      obtain _ | rounds := rounds
      · cases enough
      · have last : (list.next iter).or list.readyHead = some first := circle
        simp only [findLoop, last, if_true]
        by_cases ready : list.state iter = .ready
        · simp [ready]
        · simp [ready]
  | cons after rest ih =>
  obtain _ | rounds := rounds
  · cases enough
  obtain ⟨step, remaining⟩ := circle
  have following : (list.next iter).or list.readyHead = some after := step
  rw [List.mem_cons, not_or] at fresh
  simp only [findLoop, following]
  rw [if_neg (Ne.symm fresh.1)]
  by_cases ready : list.state iter = .ready
  · simp [ready]
  · have skipped : ((iter :: after :: rest).find? fun task => list.state task = .ready) =
        (after :: rest).find? fun task => list.state task = .ready := by
      rw [List.find?_cons]
      simp [ready]
    rw [if_neg ready, skipped]
    exact ih remaining fresh.2 (Nat.lt_of_succ_lt_succ enough)

/-- The search ends within as many rounds as there are tasks, with the first ready
task behind the current one. -/
theorem Links.find (links : Links list tasks) {current : Option T}
    (listed : ∀ task ∈ current, task ∈ tasks) {rounds : Nat}
    (enough : tasks.length ≤ rounds) :
    schedulerFindNext list current rounds =
      some ((orderFrom tasks current).find? fun task => list.state task = .ready) := by
  have perm := orderFrom_perm links.forward.nodup listed
  cases tasks with
  | nil =>
      have empty : list.readyHead = none := links.forward
      rw [List.perm_nil] at perm
      rw [schedulerFindNext, empty, perm]
      rfl
  | cons head others =>
  have start : list.readyHead = some head := links.forward.1
  obtain ⟨first, rest, order, circle, entered⟩ :=
    links.forward.circle_orderFrom listed (List.cons_ne_nil head others)
  have nodup := perm.nodup_iff.mpr links.forward.nodup
  have length := perm.length_eq
  rw [order] at nodup length
  have begins : (match current with
      | some task => list.next task
      | none => some head).getD head = first := by
    rw [start] at entered
    cases current with
    | none => simpa [entry] using entered
    | some task =>
        rw [entry, wrap] at entered
        cases following : list.next task with
        | none => simpa [following] using entered
        | some after => simpa [following] using entered
  rw [schedulerFindNext, start]
  dsimp only
  rw [begins, order]
  exact findLoop_eq circle (List.nodup_cons.mp nodup).1
    (by rw [List.length_cons] at length; omega)

/-- Nothing is found exactly when no task of the list is ready. -/
theorem find_eq_none_iff (distinct : tasks.Nodup) {current : Option T}
    (listed : ∀ task ∈ current, task ∈ tasks) (state : T → TaskState) :
    (orderFrom tasks current).find? (fun task => state task = .ready) = none ↔
      ∀ task ∈ tasks, state task ≠ .ready := by
  have perm := orderFrom_perm distinct listed
  rw [List.find?_eq_none]
  constructor
  · intro missing task member
    simpa using missing task (perm.mem_iff.mpr member)
  · intro missing task member
    simpa using missing task (perm.mem_iff.mp member)

/-- The search of the pointers is that of the model of the whole scheduler. -/
theorem find_eq_schedulerFindNext {list : ReadyList TaskId} {k : Kernel}
    (links : Links list k.order) (states : ∀ t, list.state t = (k.tasks t).state)
    (listed : ∀ t ∈ k.current, t ∈ k.order) :
    schedulerFindNext list k.current k.order.length = some (Sched.schedulerFindNext k) := by
  rw [links.find listed (Nat.le_refl _), Sched.schedulerFindNext]
  simp only [states]
  congr 2
  cases current : k.current with
  | none => simp [searchOrder, orderFrom, current]
  | some t => simp [searchOrder, orderFrom, current]

/-- After any sequence of additions of distinct tasks, and whatever happens to their
states, the list holds the tasks in that order, linked both ways, and the search ends
with the first ready one behind the current task, which itself comes last, or with
nothing when none is ready. -/
theorem ready_list_correct (start : ReadyList T) {tasks : List T} (distinct : tasks.Nodup)
    (state : T → TaskState) {current : Option T} (listed : ∀ task ∈ current, task ∈ tasks) :
    ∃ list : ReadyList T,
      list = { tasks.foldl (fun list task => schedulerAddTask list (some task))
        (schedulerInit start) with state } ∧
      Links list tasks ∧
      (∀ rounds, tasks.length ≤ rounds → schedulerFindNext list current rounds =
        some ((orderFrom tasks current).find? fun task => state task = .ready)) ∧
      ((orderFrom tasks current).find? (fun task => state task = .ready) = none ↔
        ∀ task ∈ tasks, state task ≠ .ready) := by
  have added := (links_schedulerInit start).addAll distinct (fun _ _ => List.not_mem_nil)
  rw [List.nil_append] at added
  have links := added.setState state
  refine ⟨_, rfl, links, ?_, find_eq_none_iff distinct listed state⟩
  intro rounds enough
  exact links.find listed enough

/-- The last one of three tasks looks for another, and only the first one is ready. -/
theorem ready_list_correct_three :
    ∃ list : ReadyList (Fin 3),
      list = { [0, 1, 2].foldl (fun list task => schedulerAddTask list (some task))
        (schedulerInit ⟨none, none, fun _ => none, fun _ => none, fun _ => .unused⟩) with
        state := fun task => if task = 0 then .ready else .blocked } ∧
      Links list [0, 1, 2] ∧
      (∀ rounds, [0, 1, 2].length ≤ rounds → schedulerFindNext list (some 2) rounds =
        some ((orderFrom [0, 1, 2] (some (2 : Fin 3))).find? fun task =>
          (if task = 0 then TaskState.ready else .blocked) = .ready)) ∧
      ((orderFrom [0, 1, 2] (some (2 : Fin 3))).find? (fun task =>
          (if task = 0 then TaskState.ready else .blocked) = .ready) = none ↔
        ∀ task ∈ ([0, 1, 2] : List (Fin 3)),
          (if task = 0 then TaskState.ready else .blocked) ≠ .ready) :=
  ready_list_correct _ (by decide) _ (by decide)

end ReadyList

end Charis.Sched
