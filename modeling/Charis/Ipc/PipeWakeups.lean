import Charis.Ipc.PipeOwners

/-!
# Tasks that wait at a pipe

A call that finds nothing to do leaves its task in one of the two fields of the pipe and blocks
it.  The field is all that a later call knows, so that of several tasks that wait at one end
only the last one can be woken.
-/

namespace Charis.Ipc

open Charis.Lib

variable {Task : Type}

/-- The table, with the tasks that wait at the ends of one of its pipes: a call has blocked them
and they have not been made ready since. -/
structure Watch (Task : Type) where
  table : Table Task
  readers : Set Task
  writers : Set Task

/-- A call, or tasks that are made ready for another reason. -/
inductive WatchEvent (Task : Type) where
  | use (use : Use Task)
  | resume (tasks : Set Task)

namespace Use

def isRead : Use Task → Prop
  | .read _ _ _ _ => True
  | _ => False

def isWrite : Use Task → Prop
  | .write _ _ _ _ => True
  | _ => False

/-- A read that finds a pipe empty and its write end open blocks its task. -/
def WaitsToRead (table : Table Task) (i : Fin pipeMaxPipes) (task : Task) : Use Task → Prop
  | .read current fd buf _ =>
      pipeIndex (fd.tdiv 2) = some i ∧ buf = true ∧ current = some task ∧
        (table i).count = 0 ∧ (table i).writeFd ≠ -1
  | _ => False

/-- A write that finds a pipe full blocks its task. -/
def WaitsToWrite (table : Table Task) (i : Fin pipeMaxPipes) (task : Task) : Use Task → Prop
  | .write current fd buf _ =>
      pipeIndex ((fd - 1).tdiv 2) = some i ∧ buf.isSome = true ∧ current = some task ∧
        pipeBufferSize ≤ (table i).count
  | _ => False

end Use

namespace Watch

variable (i : Fin pipeMaxPipes)

def after (watch : Watch Task) : WatchEvent Task → Watch Task
  | .use use =>
      let outcome := use.serve watch.table
      { table := outcome.state
        readers := (watch.readers ∪
            {task | use.target = some i ∧ use.isRead ∧ outcome.blocked = some task}) \
          {task | outcome.woken = some task}
        writers := (watch.writers ∪
            {task | use.target = some i ∧ use.isWrite ∧ outcome.blocked = some task}) \
          {task | outcome.woken = some task} }
  | .resume tasks =>
      { watch with readers := watch.readers \ tasks, writers := watch.writers \ tasks }

/-- A write that succeeds and the close of the write end leave no reader waiting, and a read
that succeeds and the close of the read end no writer. -/
structure Wakes (watch : Watch Task) (use : Use Task) : Prop where
  write : use.target = some i → use.isWrite → 0 < (use.serve watch.table).result →
    (watch.after i (.use use)).readers = ∅
  closeWrite : use = .close (i * 2 + 1) → (watch.after i (.use use)).readers = ∅
  read : use.target = some i → use.isRead → 0 < (use.serve watch.table).result →
    (watch.after i (.use use)).writers = ∅
  closeRead : use = .close (i * 2) → (watch.after i (.use use)).writers = ∅

/-- No task is blocked at an end of the pipe where another one waits. -/
def Alone (watch : Watch Task) : WatchEvent Task → Prop
  | .use use => ∀ task,
      (use.WaitsToRead watch.table i task → watch.readers ⊆ {task}) ∧
        (use.WaitsToWrite watch.table i task → watch.writers ⊆ {task})
  | .resume _ => True

/-- The tasks that wait are those in the fields of the pipe. -/
structure Known (watch : Watch Task) : Prop where
  readers : ∀ task ∈ watch.readers, (watch.table i).reader = some task
  writers : ∀ task ∈ watch.writers, (watch.table i).writer = some task

end Watch

namespace Use

variable {table : Table Task} {i : Fin pipeMaxPipes} {use : Use Task} {task : Task}

theorem not_isWrite (isRead : use.isRead) : ¬ use.isWrite := by
  cases use with
  | read => exact id
  | write => exact isRead.elim
  | close => exact isRead.elim

theorem WaitsToRead.isRead (waits : use.WaitsToRead table i task) : use.isRead := by
  cases use with
  | read => trivial
  | write => exact waits.elim
  | close => exact waits.elim

theorem WaitsToWrite.isWrite (waits : use.WaitsToWrite table i task) : use.isWrite := by
  cases use with
  | read => exact waits.elim
  | write => trivial
  | close => exact waits.elim

theorem WaitsToRead.empty (waits : use.WaitsToRead table i task) : (table i).count = 0 := by
  cases use with
  | read => exact waits.2.2.2.1
  | write => exact waits.elim
  | close => exact waits.elim

theorem WaitsToWrite.full (waits : use.WaitsToWrite table i task) :
    pipeBufferSize ≤ (table i).count := by
  cases use with
  | read => exact waits.elim
  | write => exact waits.2.2.2
  | close => exact waits.elim

theorem WaitsToRead.serve (waits : use.WaitsToRead table i task) :
    use.serve table =
      { result := -2, blocked := some task
        state := Function.update table i { table i with reader := some task } } := by
  cases use with
  | write => exact waits.elim
  | close => exact waits.elim
  | read current fd buf count =>
      obtain ⟨found, rfl, rfl, empty, isOpen⟩ := waits
      rw [Use.serve, pipeRead_found _ _ _ found, onPipe, Pipe.read,
        if_neg fun closed => isOpen closed.2, if_pos empty]

theorem WaitsToWrite.serve (waits : use.WaitsToWrite table i task) :
    use.serve table =
      { result := -2, blocked := some task
        state := Function.update table i { table i with writer := some task } } := by
  cases use with
  | read => exact waits.elim
  | close => exact waits.elim
  | write current fd buf count =>
      cases buf with
      | none => cases waits.2.1
      | some buf =>
          obtain ⟨found, _, rfl, full⟩ := waits
          rw [Use.serve, pipeWrite_found _ _ _ found, onPipe, Pipe.write, if_pos full]

end Use

/-- What a call on a pipe does to the tasks at its ends. -/
inductive Effect (table : Table Task) (i : Fin pipeMaxPipes) (use : Use Task) : Prop
  | idle :
      (use.serve table).result ≤ 0 → (∀ fd, use ≠ .close fd) →
      (use.serve table).blocked = none → (use.serve table).woken = none →
      (use.serve table).state = table → Effect table i use
  | readerWaits (task : Task) : use.WaitsToRead table i task → Effect table i use
  | writerWaits (task : Task) : use.WaitsToWrite table i task → Effect table i use
  | wakesWriter :
      use.isRead ∨ use = .close (i * 2) →
      (use.serve table).blocked = none → (use.serve table).woken = (table i).writer →
      ((use.serve table).state i).reader = (table i).reader →
      ((use.serve table).state i).writer = none → Effect table i use
  | wakesReader :
      use.isWrite ∨ use = .close (i * 2 + 1) →
      (use.serve table).blocked = none → (use.serve table).woken = (table i).reader →
      ((use.serve table).state i).reader = none →
      ((use.serve table).state i).writer = (table i).writer → Effect table i use

namespace Pipe

variable (pipe : Pipe Task) (current : Option Task) (count : Nat)

/-- How a read goes: the end of the file, a task that is blocked, or bytes. -/
theorem read_cases :
    pipe.read current count = { result := 0, state := pipe } ∨
    (∃ task, current = some task ∧ pipe.count = 0 ∧ pipe.writeFd ≠ -1) ∨
    ((pipe.read current count).blocked = none ∧
      (pipe.read current count).woken = pipe.writer ∧
      (pipe.read current count).state.reader = pipe.reader ∧
      (pipe.read current count).state.writer = none) := by
  unfold read
  split
  · exact .inl rfl
  next more =>
  right
  split
  · next task waits =>
      split at waits
      · next empty => exact .inl ⟨task, waits, empty, fun closed => more ⟨empty, closed⟩⟩
      · cases waits
  · exact .inr ⟨rfl, rfl, rfl, rfl⟩

/-- How a write goes: a task that is blocked, or bytes. -/
theorem write_cases (buf : Nat → UInt8) :
    (∃ task, current = some task ∧ pipeBufferSize ≤ pipe.count) ∨
    ((pipe.write current buf count).blocked = none ∧
      (pipe.write current buf count).woken = pipe.reader ∧
      (pipe.write current buf count).state.reader = none ∧
      (pipe.write current buf count).state.writer = pipe.writer) := by
  unfold write
  split
  · next task waits =>
      split at waits
      · next full => exact .inl ⟨task, waits, full⟩
      · cases waits
  · exact .inr ⟨rfl, rfl, rfl, rfl⟩

end Pipe

theorem Effect.of_serve {table : Table Task} {i : Fin pipeMaxPipes} {use : Use Task}
    {result : Int} (served : use.serve table = { result, state := table }) (small : result ≤ 0)
    (notClose : ∀ fd, use ≠ .close fd) : Effect table i use := by
  apply Effect.idle
  · rwa [served]
  · exact notClose
  · rw [served]
  · rw [served]
  · rw [served]

theorem effect (table : Table Task) {i : Fin pipeMaxPipes} {use : Use Task}
    (target : use.target = some i) : Effect table i use := by
  cases use with
  | read current fd buf count =>
      have found : pipeIndex (fd.tdiv 2) = some i := target
      cases buf with
      | false =>
          have served : (Use.read current fd false count).serve table =
              { result := -1, state := table } := pipeRead_refused table current count (.inr rfl)
          apply Effect.of_serve served
          · decide
          · intro fd impossible
            cases impossible
      | true =>
      have served : (Use.read current fd true count).serve table =
          onPipe table i (·.read current count) := pipeRead_found table current count found
      rcases (table i).read_cases current count with ended | ⟨task, waits, empty, isOpen⟩ |
        ⟨blocked, woken, reader, writer⟩
      · apply Effect.of_serve (served.trans (onPipe_idle ended))
        · exact le_rfl
        · intro fd impossible
          cases impossible
      · exact .readerWaits task ⟨found, rfl, waits, empty, isOpen⟩
      · apply Effect.wakesWriter
        · exact .inl trivial
        · rw [served, onPipe, blocked]
        · rw [served, onPipe, woken]
        · rw [served, onPipe_same, reader]
        · rw [served, onPipe_same, writer]
  | write current fd buf count =>
      have found : pipeIndex ((fd - 1).tdiv 2) = some i := target
      cases buf with
      | none =>
          have served : (Use.write current fd none count).serve table =
              { result := -1, state := table } := pipeWrite_refused table current count (.inr rfl)
          apply Effect.of_serve served
          · decide
          · intro fd impossible
            cases impossible
      | some buf =>
      have served : (Use.write current fd (some buf) count).serve table =
          onPipe table i (·.write current buf count) :=
        pipeWrite_found table current count found buf
      rcases (table i).write_cases current count buf with ⟨task, waits, full⟩ |
        ⟨blocked, woken, reader, writer⟩
      · exact .writerWaits task ⟨found, rfl, waits, full⟩
      · apply Effect.wakesReader
        · exact .inl trivial
        · rw [served, onPipe, blocked]
        · rw [served, onPipe, woken]
        · rw [served, onPipe_same, reader]
        · rw [served, onPipe_same, writer]
  | close fd =>
  rcases close_target target with rfl | rfl
  · have served := serve_close_even table i
    apply Effect.wakesWriter
    · exact .inr rfl
    · rw [served]
      rfl
    · rw [served]
      rfl
    · rw [served, onPipe_same]
      rfl
    · rw [served, onPipe_same]
      rfl
  · have served := serve_close_odd table i
    apply Effect.wakesReader
    · exact .inr rfl
    · rw [served]
      rfl
    · rw [served]
      rfl
    · rw [served, onPipe_same]
      rfl
    · rw [served, onPipe_same]
      rfl

/-! ## The tasks that wait -/

namespace Watch

variable {i : Fin pipeMaxPipes} {watch : Watch Task} {use : Use Task} {task : Task}

theorem after_table : (watch.after i (.use use)).table = (use.serve watch.table).state :=
  rfl

theorem mem_readers (use : Use Task) :
    task ∈ (watch.after i (.use use)).readers ↔
      (task ∈ watch.readers ∨
        use.target = some i ∧ use.isRead ∧ (use.serve watch.table).blocked = some task) ∧
      (use.serve watch.table).woken ≠ some task :=
  Iff.rfl

theorem mem_writers (use : Use Task) :
    task ∈ (watch.after i (.use use)).writers ↔
      (task ∈ watch.writers ∨
        use.target = some i ∧ use.isWrite ∧ (use.serve watch.table).blocked = some task) ∧
      (use.serve watch.table).woken ≠ some task :=
  Iff.rfl

/-- The tasks that wait stay known when the tasks that are not woken keep their fields. -/
theorem Known.of_kept (known : watch.Known i)
    (blocked : use.target = some i → (use.serve watch.table).blocked = none)
    (reader : ∀ task, (watch.table i).reader = some task →
      (use.serve watch.table).woken ≠ some task →
      ((use.serve watch.table).state i).reader = some task)
    (writer : ∀ task, (watch.table i).writer = some task →
      (use.serve watch.table).woken ≠ some task →
      ((use.serve watch.table).state i).writer = some task) :
    (watch.after i (.use use)).Known i := by
  constructor
  · intro task waits
    obtain ⟨waits | ⟨target, _, blocks⟩, asleep⟩ := (mem_readers _).mp waits
    · exact reader task (known.readers task waits) asleep
    · rw [blocked target] at blocks
      cases blocks
  · intro task waits
    obtain ⟨waits | ⟨target, _, blocks⟩, asleep⟩ := (mem_writers _).mp waits
    · exact writer task (known.writers task waits) asleep
    · rw [blocked target] at blocks
      cases blocks

theorem Known.after (known : watch.Known i) (event : WatchEvent Task)
    (alone : watch.Alone i event) : (watch.after i event).Known i := by
  cases event with
  | resume tasks =>
      exact ⟨fun task waits => known.readers task waits.1,
        fun task waits => known.writers task waits.1⟩
  | use use =>
  by_cases target : use.target = some i
  case neg =>
    have same : (use.serve watch.table).state i = watch.table i := serve_other target
    apply known.of_kept
    · exact fun here => absurd here target
    · exact fun task waits _ => by rw [same, waits]
    · exact fun task waits _ => by rw [same, waits]
  cases effect watch.table target with
  | idle _ _ blocked _ same =>
      apply known.of_kept
      · exact fun _ => blocked
      · exact fun task waits _ => by rw [same, waits]
      · exact fun task waits _ => by rw [same, waits]
  | readerWaits last waits =>
      have served := waits.serve
      have table : (watch.after i (.use use)).table i =
          { watch.table i with reader := some last } := by
        rw [after_table, served]
        exact Function.update_self _ _ _
      constructor
      · intro task waiting
        have isLast : task = last := by
          rcases ((mem_readers _).mp waiting).1 with earlier | ⟨_, _, blocks⟩
          · exact (alone last).1 waits earlier
          · rw [served, Option.some.injEq] at blocks
            exact blocks.symm
        rw [table, isLast]
      · intro task waiting
        rcases ((mem_writers _).mp waiting).1 with earlier | ⟨_, isWrite, _⟩
        · rw [table]
          exact known.writers task earlier
        · exact absurd isWrite (Use.not_isWrite waits.isRead)
  | writerWaits last waits =>
      have served := waits.serve
      have table : (watch.after i (.use use)).table i =
          { watch.table i with writer := some last } := by
        rw [after_table, served]
        exact Function.update_self _ _ _
      constructor
      · intro task waiting
        rcases ((mem_readers _).mp waiting).1 with earlier | ⟨_, isRead, _⟩
        · rw [table]
          exact known.readers task earlier
        · exact absurd waits.isWrite (Use.not_isWrite isRead)
      · intro task waiting
        have isLast : task = last := by
          rcases ((mem_writers _).mp waiting).1 with earlier | ⟨_, _, blocks⟩
          · exact (alone last).2 waits earlier
          · rw [served, Option.some.injEq] at blocks
            exact blocks.symm
        rw [table, isLast]
  | wakesWriter _ blocked woken reader _ =>
      apply known.of_kept
      · exact fun _ => blocked
      · exact fun task waits _ => by rw [reader, waits]
      · intro task waits asleep
        rw [woken] at asleep
        exact absurd waits asleep
  | wakesReader _ blocked woken _ writer =>
  apply known.of_kept
  · exact fun _ => blocked
  · intro task waits asleep
    rw [woken] at asleep
    exact absurd waits asleep
  · exact fun task waits _ => by rw [writer, waits]

theorem Known.no_readers (known : watch.Known i)
    (blocked : (use.serve watch.table).blocked = none)
    (woken : (use.serve watch.table).woken = (watch.table i).reader) :
    (watch.after i (.use use)).readers = ∅ := by
  apply Set.eq_empty_of_forall_notMem
  intro task waiting
  obtain ⟨waits | ⟨_, _, blocks⟩, asleep⟩ := (mem_readers _).mp waiting
  · exact asleep (woken.trans (known.readers task waits))
  · rw [blocked] at blocks
    cases blocks

theorem Known.no_writers (known : watch.Known i)
    (blocked : (use.serve watch.table).blocked = none)
    (woken : (use.serve watch.table).woken = (watch.table i).writer) :
    (watch.after i (.use use)).writers = ∅ := by
  apply Set.eq_empty_of_forall_notMem
  intro task waiting
  obtain ⟨waits | ⟨_, _, blocks⟩, asleep⟩ := (mem_writers _).mp waiting
  · exact asleep (woken.trans (known.writers task waits))
  · rw [blocked] at blocks
    cases blocks

theorem Known.wakes (known : watch.Known i) (use : Use Task) : watch.Wakes i use := by
  constructor
  · intro target isWrite success
    cases effect watch.table target with
    | idle small => exact absurd success (not_lt.mpr small)
    | readerWaits _ waits =>
        rw [waits.serve] at success
        cases success
    | writerWaits _ waits =>
        rw [waits.serve] at success
        cases success
    | wakesWriter kind =>
        rcases kind with isRead | rfl
        · exact absurd isWrite (Use.not_isWrite isRead)
        · exact isWrite.elim
    | wakesReader _ blocked woken => exact known.no_readers blocked woken
  · rintro rfl
    apply known.no_readers
    · rw [serve_close_odd]
      rfl
    · rw [serve_close_odd]
      rfl
  · intro target isRead success
    cases effect watch.table target with
    | idle small => exact absurd success (not_lt.mpr small)
    | readerWaits _ waits =>
        rw [waits.serve] at success
        cases success
    | writerWaits _ waits =>
        rw [waits.serve] at success
        cases success
    | wakesWriter _ blocked woken => exact known.no_writers blocked woken
    | wakesReader kind =>
        rcases kind with isWrite | rfl
        · exact absurd isWrite (Use.not_isWrite isRead)
        · exact isRead.elim
  · rintro rfl
    apply known.no_writers
    · rw [serve_close_even]
      rfl
    · rw [serve_close_even]
      rfl

/-- A byte that is written to a pipe that is not full wakes its reader and no other task. -/
theorem readers_of_byte (space : (watch.table i).count < pipeBufferSize)
    (reader : (watch.table i).reader = some task)
    (wakes : ∀ use, watch.Wakes i use) : watch.readers ⊆ {task} := by
  have target : (Use.write (none : Option Task) (i * 2 + 1) (some fun _ => 0) 1).target =
      some i := by
    rw [Use.target, pipeIndex_eq_some, Int.add_sub_cancel]
    exact Int.mul_tdiv_cancel _ (by decide)
  have served := pipeWrite_found watch.table none 1 target fun _ => 0
  have result : ((watch.table i).write none (fun _ => 0) 1).result = 1 := by
    unfold Pipe.write pipeBufferSize
    rw [if_neg (not_le.mpr space)]
    simp only
    unfold pipeBufferSize at space
    omega
  have woken : ((watch.table i).write none (fun _ => 0) 1).woken = some task := by
    rcases (watch.table i).write_cases none 1 fun _ => 0 with ⟨_, impossible, _⟩ | ⟨_, woken, _⟩
    · cases impossible
    · rw [woken, reader]
  have emptied := (wakes _).write target trivial <| by
    rw [Use.serve, served, onPipe, result]
    exact Int.one_pos
  intro other waits
  by_contra different
  have left := emptied.le ((mem_readers _).mpr ⟨.inl waits, by
    rw [Use.serve, served, onPipe, woken]
    exact fun same => different (Option.some.inj same).symm⟩)
  exact left

/-- A byte that is read from a pipe that is not empty wakes its writer and no other task. -/
theorem writers_of_byte (bytes : (watch.table i).count ≠ 0)
    (writer : (watch.table i).writer = some task)
    (wakes : ∀ use, watch.Wakes i use) : watch.writers ⊆ {task} := by
  have target : (Use.read (none : Option Task) (i * 2) true 1).target = some i := by
    rw [Use.target, pipeIndex_eq_some]
    exact Int.mul_tdiv_cancel _ (by decide)
  have served := pipeRead_found watch.table none 1 target
  have result : ((watch.table i).read none 1).result = 1 := by
    unfold Pipe.read
    rw [if_neg fun ended => bytes ended.1, if_neg bytes]
    simp only
    omega
  have woken : ((watch.table i).read none 1).woken = some task := by
    rcases (watch.table i).read_cases none 1 with ended | ⟨_, impossible, _⟩ | ⟨_, woken, _⟩
    · rw [ended] at result
      cases result
    · cases impossible
    · rw [woken, writer]
  have emptied := (wakes _).read target trivial <| by
    rw [Use.serve, served, onPipe, result]
    exact Int.one_pos
  intro other waits
  by_contra different
  have left := emptied.le ((mem_writers _).mpr ⟨.inl waits, by
    rw [Use.serve, served, onPipe, woken]
    exact fun same => different (Option.some.inj same).symm⟩)
  exact left

/-- Where the next calls wake every task, a call has not left one task waiting behind another. -/
theorem alone_of_wakes (event : WatchEvent Task)
    (wakes : ∀ use, (watch.after i event).Wakes i use) : watch.Alone i event := by
  cases event with
  | resume => trivial
  | use use =>
  intro task
  constructor
  · intro waits
    have served := waits.serve
    have table : (watch.after i (.use use)).table i =
        { watch.table i with reader := some task } := by
      rw [after_table, served]
      exact Function.update_self _ _ _
    have last : (watch.after i (.use use)).readers ⊆ {task} := by
      apply readers_of_byte _ _ wakes
      · rw [table, waits.empty]
        decide
      · rw [table]
    intro other earlier
    exact last ((mem_readers _).mpr ⟨.inl earlier, by
      rw [served]
      exact fun impossible => by cases impossible⟩)
  intro waits
  have served := waits.serve
  have table : (watch.after i (.use use)).table i =
      { watch.table i with writer := some task } := by
    rw [after_table, served]
    exact Function.update_self _ _ _
  have last : (watch.after i (.use use)).writers ⊆ {task} := by
    apply writers_of_byte _ _ wakes
    · rw [table]
      exact Nat.ne_of_gt (lt_of_lt_of_le (by decide) waits.full)
    · rw [table]
  intro other earlier
  exact last ((mem_writers _).mpr ⟨.inl earlier, by
    rw [served]
    exact fun impossible => by cases impossible⟩)

end Watch

/-- The table, before a task waits. -/
def Watch.ofTable (table : Table Task) : Watch Task :=
  { table, readers := ∅, writers := ∅ }

/-- Every task that waits is woken by the next call that lets it go on, at every moment of a run,
exactly when no task is blocked at an end where another one waits. -/
theorem wakes_iff (i : Fin pipeMaxPipes) (table : Table Task) (events : List (WatchEvent Task)) :
    (∀ earlier, earlier <+: events → ∀ use,
        (earlier.foldl (Watch.after i) (.ofTable table)).Wakes i use) ↔
      Along (Watch.after i) (Watch.Alone i) (.ofTable table) events := by
  constructor
  · intro wakes
    generalize Watch.ofTable table = watch at wakes ⊢
    induction events generalizing watch with
    | nil => trivial
    | cons event events ih =>
    constructor
    · apply Watch.alone_of_wakes
      intro use
      exact wakes [event] (by simp) use
    · apply ih
      intro earlier early use
      exact wakes (event :: earlier) (by simpa using early) use
  · intro alone earlier early use
    have known : (Watch.ofTable table).Known i :=
      ⟨fun _ impossible => impossible.elim, fun _ impossible => impossible.elim⟩
    have kept : Watch.Known i (earlier.foldl (Watch.after i) (.ofTable table)) :=
      (alone.of_earlier early).invariant (fun _ event before only => before.after event only) known
    exact kept.wakes use

/-- Two tasks wait to read from a new pipe; a byte that a third one writes wakes the second. -/
theorem first_reader_sleeps :
    ¬ Watch.Wakes 0
      ([.use (.read (some 0) 0 true 1), .use (.read (some 1) 0 true 1)].foldl (Watch.after 0)
        (.ofTable (pipeCreate (pipeInit : Table Nat)).state))
      (.write (some 2) 1 (some fun _ => 7) 1) := by
  intro wakes
  have emptied := wakes.write rfl trivial (by decide)
  have woken : (0 : Nat) ∈ (∅ : Set Nat) := by
    rw [← emptied]
    refine (Watch.mem_readers _).mpr ⟨.inl ?_, by decide⟩
    refine (Watch.mem_readers _).mpr ⟨.inl ?_, by decide⟩
    exact (Watch.mem_readers _).mpr ⟨.inr ⟨rfl, trivial, rfl⟩, by decide⟩
  exact woken

end Charis.Ipc
