import Charis.Ipc.PipeOwners

/-!
# Generations of pipes

`pipe_create` hands out the slots of the table again.  A descriptor belongs to the pipe for
which it was handed out, though its number only tells the slot; what the pipes of a slot carry
and who waits for them must stay apart.  The history of the table keeps what the kernel does
not: how often a slot has been handed out, which descriptors have been closed, what went
through each pipe and which tasks are blocked.
-/

namespace Charis.Ipc

open Charis.Lib

variable {Task : Type}

/-- An end of the pipe that a slot held at some time. -/
structure Handle where
  slot : Fin pipeMaxPipes
  generation : Nat
  writeEnd : Bool
  deriving DecidableEq

/-- The descriptor of an end. -/
def Handle.fd (handle : Handle) : Int := handle.slot * 2 + if handle.writeEnd then 1 else 0

/-- What is asked for with a descriptor. -/
inductive Request (Task : Type) where
  | read (current : Option Task) (buf : Bool) (count : Nat)
  | write (current : Option Task) (buf : Option (Nat → UInt8)) (count : Nat)
  | close

namespace Request

def toUse (fd : Int) : Request Task → Use Task
  | .read current buf count => .read current fd buf count
  | .write current buf count => .write current fd buf count
  | .close => .close fd

/-- The bytes that the request puts into a pipe. -/
def accepted (request : Request Task) (outcome : Outcome Task (Table Task)) : List UInt8 :=
  match request with
  | .write _ _ _ => outcome.data
  | _ => []

/-- The bytes that the request takes out of a pipe. -/
def taken (request : Request Task) (outcome : Outcome Task (Table Task)) : List UInt8 :=
  match request with
  | .read _ _ _ => outcome.data
  | _ => []

/-- Nothing is written to a read descriptor but that of the first slot, which leads there. -/
def RightEnd (handle : Handle) : Request Task → Prop
  | .write _ _ _ => handle.writeEnd = true ∨ handle.slot = 0
  | _ => True

end Request

/-- What happens to the pipes; other parts of the kernel block and wake tasks as well. -/
inductive PipeEvent (Task : Type) where
  | create
  | request (handle : Handle) (request : Request Task)
  | schedule (blocked : Set Task)

structure History (Task : Type) where
  table : Table Task
  generation : Fin pipeMaxPipes → Nat
  closed : Set Handle
  written : Fin pipeMaxPipes → Nat → List UInt8
  read : Fin pipeMaxPipes → Nat → List UInt8
  blocked : Set Task

namespace History

/-- After `pipe_init`. -/
def boot : History Task where
  table := pipeInit
  generation _ := 0
  closed := ∅
  written _ _ := []
  read _ _ := []
  blocked := ∅

/-- Bytes are added to what is known of a pipe. -/
def append (log : Fin pipeMaxPipes → Nat → List UInt8) (handle : Handle) (bytes : List UInt8) :
    Fin pipeMaxPipes → Nat → List UInt8 :=
  Function.update log handle.slot
    (Function.update (log handle.slot) handle.generation
      (log handle.slot handle.generation ++ bytes))

def after (history : History Task) : PipeEvent Task → History Task
  | .create =>
      { history with
        table := (pipeCreate history.table).state
        generation :=
          match pipeIndex (pipeCreate history.table).result with
          | none => history.generation
          | some i => Function.update history.generation i (history.generation i + 1) }
  | .request handle request =>
      let outcome := (request.toUse handle.fd).serve history.table
      { history with
        table := outcome.state
        closed :=
          match request with
          | .close => insert handle history.closed
          | _ => history.closed
        written := append history.written handle (request.accepted outcome)
        read := append history.read handle (request.taken outcome)
        blocked := (history.blocked ∪ {task | outcome.blocked = some task}) \
          {task | outcome.woken = some task} }
  | .schedule blocked => { history with blocked }

/-- The descriptor has been handed out. -/
def Issued (history : History Task) : PipeEvent Task → Prop
  | .request handle _ =>
      1 ≤ handle.generation ∧ handle.generation ≤ history.generation handle.slot
  | _ => True

/-- A slot is handed out again only when both ends of its pipe are closed and it is known to
no task that is blocked, and a descriptor leads to its own pipe. -/
def Apart (history : History Task) : PipeEvent Task → Prop
  | .create => ∀ i : Fin pipeMaxPipes, (pipeCreate history.table).result = i →
      (history.table i).readFd = -1 ∧ (history.table i).writeFd = -1 ∧
        ∀ task, (history.table i).reader = some task ∨ (history.table i).writer = some task →
          task ∉ history.blocked
  | .request handle request =>
      handle.generation = history.generation handle.slot ∧
        (request.toUse handle.fd).target = some handle.slot
  | .schedule _ => True

/-- What is read from a pipe has been written to it. -/
def Separate (history : History Task) : Prop :=
  ∀ slot generation, history.read slot generation <+: history.written slot generation

/-- No slot is handed out while its write end is open or a blocked task waits to write to it,
closed descriptors are not used once their slot has been handed out again, and nothing is
written to a read descriptor. -/
def Careful (history : History Task) : PipeEvent Task → Prop
  | .create => ∀ i : Fin pipeMaxPipes, (pipeCreate history.table).result = i →
      (history.table i).writeFd = -1 ∧
        ∀ task, (history.table i).writer = some task → task ∉ history.blocked
  | .request handle request =>
      (handle ∈ history.closed → handle.generation = history.generation handle.slot) ∧
        request.RightEnd handle
  | .schedule _ => True

end History

namespace Handle

variable (handle : Handle)

theorem pipeIndex_read : pipeIndex (handle.fd.tdiv 2) = some handle.slot := by
  rw [pipeIndex_eq_some, fd]
  split
  · rw [Int.tdiv_eq_ediv_of_nonneg (by omega)]
    omega
  · rw [Int.tdiv_eq_ediv_of_nonneg (by omega)]
    omega

theorem pipeIndex_write :
    pipeIndex ((handle.fd - 1).tdiv 2) = some handle.slot ↔
      handle.writeEnd = true ∨ handle.slot = 0 := by
  rw [pipeIndex_eq_some, fd]
  by_cases writes : handle.writeEnd = true
  · rw [if_pos writes, Int.tdiv_eq_ediv_of_nonneg (by omega)]
    simp only [writes, true_or, iff_true]
    omega
  rw [if_neg writes, Int.add_zero]
  by_cases first : handle.slot = 0
  · rw [first]
    simp only [or_true, iff_true]
    rfl
  · have positive : handle.slot.val ≠ 0 := fun zero => first (Fin.ext zero)
    rw [Int.tdiv_eq_ediv_of_nonneg (by omega)]
    constructor
    · intro same
      omega
    · rintro (impossible | impossible)
      · exact (writes impossible).elim
      · exact (first impossible).elim

theorem target_close : (Use.close handle.fd : Use Task).target = some handle.slot := by
  rw [fd]
  split
  · exact target_close_odd handle.slot
  · rw [Int.add_zero]
    exact target_close_even handle.slot

theorem serve_close (pipes : Table Task) :
    (Use.close handle.fd).serve pipes =
      onPipe pipes handle.slot
        (if handle.writeEnd then Pipe.closeWrite else Pipe.closeRead) := by
  rw [fd]
  split
  · exact serve_close_odd pipes handle.slot
  · rw [Int.add_zero]
    exact serve_close_even pipes handle.slot

end Handle

namespace Pipe

variable (pipe : Pipe Task) (current : Option Task)

/-- A task waits to read only at a pipe whose write end is open. -/
def ReaderServed (pipe : Pipe Task) : Prop := pipe.writeFd = -1 → pipe.reader = none

theorem read_readerServed (served : pipe.ReaderServed) (count : Nat) :
    (pipe.read current count).state.ReaderServed := by
  unfold read
  split
  · exact served
  next more =>
  split
  · next task waits =>
      intro closed
      split at waits
      · next empty => exact (more ⟨empty, closed⟩).elim
      · cases waits
  · exact served

theorem write_readerServed (served : pipe.ReaderServed) (buf : Nat → UInt8) (count : Nat) :
    (pipe.write current buf count).state.ReaderServed := by
  unfold write
  split
  · exact served
  · intro _
    rfl

end Pipe

/-- A request leaves a pipe in order, carries its bytes, and closes at most its own end. -/
structure Serves (handle : Handle) (request : Request Task)
    (outcome : Outcome Task (Table Task)) (pipe : Pipe Task) : Prop where
  ordered : (outcome.state handle.slot).Ordered
  bytes : pipe.buffered ++ request.accepted outcome =
    request.taken outcome ++ (outcome.state handle.slot).buffered
  readFd : (outcome.state handle.slot).readFd = -1 →
    pipe.readFd = -1 ∨ request = .close ∧ handle.writeEnd = false
  writeFd : (outcome.state handle.slot).writeFd = -1 →
    pipe.writeFd = -1 ∨ request = .close ∧ handle.writeEnd = true
  reader : (outcome.state handle.slot).ReaderServed

section Requests

variable {handle : Handle} {table : Table Task}

/-- A request that is refused changes nothing. -/
theorem Serves.refused {request : Request Task} {result : Int}
    (ordered : (table handle.slot).Ordered) (reader : (table handle.slot).ReaderServed) :
    Serves handle request { result, state := table } (table handle.slot) where
  ordered := ordered
  bytes := by cases request <;> exact List.append_nil _
  readFd := .inl
  writeFd := .inl
  reader := reader

theorem serves (request : Request Task)
    (own : (request.toUse handle.fd).target = some handle.slot)
    (ordered : (table handle.slot).Ordered) (reader : (table handle.slot).ReaderServed) :
    Serves handle request ((request.toUse handle.fd).serve table) (table handle.slot) := by
  cases request with
  | read current buf count =>
      cases buf with
      | false =>
          have refused := @pipeRead_refused Task table current handle.fd count false (.inr rfl)
          rw [Request.toUse, Use.serve, refused]
          exact .refused ordered reader
      | true =>
      obtain ⟨readFd, writeFd⟩ := read_readFd (table handle.slot) current count
      obtain ⟨ordered', bytes⟩ := Pipe.read_spec current ordered count
      rw [Request.toUse, Use.serve, pipeRead_found _ _ _ own]
      constructor
      · rw [onPipe_same]
        exact ordered'
      · rw [onPipe_same]
        exact (List.append_nil _).trans bytes
      · rw [onPipe_same, readFd]
        exact .inl
      · rw [onPipe_same, writeFd]
        exact .inl
      · rw [onPipe_same]
        exact Pipe.read_readerServed _ current reader count
  | write current buf count =>
      cases buf with
      | none =>
          have refused := @pipeWrite_refused Task table current handle.fd count none (.inr rfl)
          rw [Request.toUse, Use.serve, refused]
          exact .refused ordered reader
      | some buf =>
      obtain ⟨readFd, writeFd⟩ := write_readFd (table handle.slot) current buf count
      obtain ⟨ordered', bytes⟩ := Pipe.write_spec current ordered buf count
      rw [Request.toUse, Use.serve, pipeWrite_found _ _ _ own]
      constructor
      · rw [onPipe_same]
        exact ordered'
      · rw [onPipe_same]
        exact bytes.symm
      · rw [onPipe_same, readFd]
        exact .inl
      · rw [onPipe_same, writeFd]
        exact .inl
      · rw [onPipe_same]
        exact Pipe.write_readerServed _ current reader buf count
  | close =>
  rw [Request.toUse, handle.serve_close]
  cases side : handle.writeEnd with
  | true =>
      simp only [if_true]
      constructor
      · rw [onPipe_same]
        exact ⟨ordered.bounded, ordered.cursors⟩
      · rw [onPipe_same]
        exact List.append_nil _
      · rw [onPipe_same]
        exact .inl
      · intro _
        exact .inr ⟨rfl, side⟩
      · rw [onPipe_same]
        exact fun _ => rfl
  | false =>
  simp only [Bool.false_eq_true, if_false]
  constructor
  · rw [onPipe_same]
    exact ⟨ordered.bounded, ordered.cursors⟩
  · rw [onPipe_same]
    exact List.append_nil _
  · intro _
    exact .inr ⟨rfl, side⟩
  · rw [onPipe_same]
    exact .inl
  · rw [onPipe_same]
    exact reader

end Requests

/-! ## The history of a slot -/

namespace History

/-- What is known of a slot. -/
structure SlotFine (history : History Task) (i : Fin pipeMaxPipes) : Prop where
  ordered : (history.table i).Ordered
  reader : (history.table i).ReaderServed
  current : history.read i (history.generation i) ++ (history.table i).buffered =
    history.written i (history.generation i)
  older : ∀ generation < history.generation i,
    history.read i generation <+: history.written i generation
  newer : ∀ generation, history.generation i < generation →
    history.read i generation = [] ∧ history.written i generation = []
  readClosed : (history.table i).readFd = -1 → 1 ≤ history.generation i →
    ⟨i, history.generation i, false⟩ ∈ history.closed
  writeClosed : (history.table i).writeFd = -1 → 1 ≤ history.generation i →
    ⟨i, history.generation i, true⟩ ∈ history.closed
  past : ∀ generation writeEnd, 1 ≤ generation → generation < history.generation i →
    ⟨i, generation, writeEnd⟩ ∈ history.closed

variable {history : History Task} {i : Fin pipeMaxPipes}

theorem SlotFine.read_written (fine : SlotFine history i) (generation : Nat) :
    history.read i generation <+: history.written i generation := by
  rcases Nat.lt_trichotomy generation (history.generation i) with before | same | after
  · exact fine.older generation before
  · rw [same, ← fine.current]
    exact List.prefix_append _ _
  · rw [(fine.newer generation after).1]
    exact List.nil_prefix

theorem SlotFine.generation_of_open {handle : Handle} (fine : SlotFine history handle.slot)
    {request : Request Task} (issued : Issued history (.request handle request))
    (isOpen : handle ∉ history.closed) : handle.generation = history.generation handle.slot := by
  by_contra different
  exact isOpen (fine.past handle.generation handle.writeEnd issued.1
    (lt_of_le_of_ne issued.2 different))

theorem slotFine_boot (i : Fin pipeMaxPipes) : SlotFine (boot : History Task) i where
  ordered := ⟨Nat.zero_le _, rfl⟩
  reader _ := rfl
  current := rfl
  older _ _ := List.nil_prefix
  newer _ _ := ⟨rfl, rfl⟩
  readClosed _ impossible := absurd impossible (Nat.not_succ_le_zero 0)
  writeClosed _ impossible := absurd impossible (Nat.not_succ_le_zero 0)
  past generation _ _ impossible := absurd impossible (Nat.not_lt_zero generation)

/-- What a slot has through is kept by a step that leaves its pipe alone. -/
theorem SlotFine.of_same {history' : History Task} (fine : SlotFine history i)
    (table : history'.table i = history.table i)
    (generation : history'.generation i = history.generation i)
    (written : history'.written i = history.written i) (read : history'.read i = history.read i)
    (closed : history.closed ⊆ history'.closed) : SlotFine history' i := by
  constructor
  · rw [table]
    exact fine.ordered
  · rw [table]
    exact fine.reader
  · rw [table, generation, written, read]
    exact fine.current
  · rw [generation, written, read]
    exact fine.older
  · rw [generation, written, read]
    exact fine.newer
  · rw [table, generation]
    exact fun ended some => closed (fine.readClosed ended some)
  · rw [table, generation]
    exact fun ended some => closed (fine.writeClosed ended some)
  · rw [generation]
    exact fun other writeEnd some before => closed (fine.past other writeEnd some before)

theorem pipeCreate_spec (pipes : Table Task) :
    (∃ i : Fin pipeMaxPipes, (pipeCreate pipes).result = i ∧ (pipes i).readFd = -1 ∧
        (∀ j, j ≠ i → (pipeCreate pipes).state j = pipes j) ∧
        (pipeCreate pipes).state i =
          { pipes i with
            count := 0, readPos := 0, writePos := 0
            readFd := i * 2, writeFd := i * 2 + 1, reader := none, writer := none }) ∨
      (pipeCreate pipes).result = -1 ∧ (pipeCreate pipes).state = pipes := by
  unfold pipeCreate
  split
  · next i found =>
      left
      refine ⟨i, rfl, by simpa using List.find?_some found, ?_, ?_⟩
      · intro j other
        exact Function.update_of_ne other _ _
      · exact Function.update_self _ _ _
  · exact .inr ⟨rfl, rfl⟩

theorem slotFine_create (fine : ∀ i, SlotFine history i) (careful : Careful history .create)
    (i : Fin pipeMaxPipes) : SlotFine (history.after .create) i := by
  rcases pipeCreate_spec history.table with ⟨j, result, free, others, fresh⟩ | none
  · have found : pipeIndex (pipeCreate history.table).result = some j :=
      pipeIndex_eq_some.mpr result
    by_cases here : i = j
    · subst here
      obtain ⟨flowing, empty⟩ := pipeCreate_flowing result
      have ended := (careful i result).1
      have table : (history.after .create).table i = (pipeCreate history.table).state i := rfl
      have generation : (history.after .create).generation i = history.generation i + 1 := by
        simp only [after, found]
        exact Function.update_self _ _ _
      have written : (history.after .create).written = history.written := rfl
      have read : (history.after .create).read = history.read := rfl
      have closed : (history.after .create).closed = history.closed := rfl
      have nothing := (fine i).newer (history.generation i + 1) (Nat.lt_succ_self _)
      constructor
      · rw [table]
        exact flowing.ordered
      · rw [table, fresh]
        exact fun _ => rfl
      · rw [table, generation, written, read, empty, nothing.1, nothing.2]
        rfl
      · rw [generation, written, read]
        exact fun other _ => (fine i).read_written other
      · rw [generation, written, read]
        exact fun other later => (fine i).newer other (by omega)
      · rw [table, fresh]
        intro impossible
        dsimp only at impossible
        omega
      · rw [table, fresh]
        intro impossible
        dsimp only at impossible
        omega
      · rw [generation, closed]
        intro other writeEnd some before
        rcases Nat.lt_succ_iff_lt_or_eq.mp before with past | last
        · exact (fine i).past other writeEnd some past
        · rw [last] at some ⊢
          cases writeEnd with
          | false => exact (fine i).readClosed free some
          | true => exact (fine i).writeClosed ended some
    · apply (fine i).of_same
      · exact others i here
      · simp only [after, found]
        exact Function.update_of_ne here _ _
      · rfl
      · rfl
      · exact subset_rfl
  · apply (fine i).of_same
    · rw [after, none.2]
    · simp only [after, none.1]
      rfl
    · rfl
    · rfl
    · exact subset_rfl

@[simp] theorem append_self (log : Fin pipeMaxPipes → Nat → List UInt8) (handle : Handle)
    (bytes : List UInt8) :
    append log handle bytes handle.slot handle.generation =
      log handle.slot handle.generation ++ bytes := by
  rw [append, Function.update_self, Function.update_self]

theorem append_slot (log : Fin pipeMaxPipes → Nat → List UInt8) {handle : Handle}
    (bytes : List UInt8) (other : i ≠ handle.slot) : append log handle bytes i = log i :=
  Function.update_of_ne other _ _

theorem append_generation (log : Fin pipeMaxPipes → Nat → List UInt8) {handle : Handle}
    (bytes : List UInt8) {generation : Nat} (other : generation ≠ handle.generation) :
    append log handle bytes handle.slot generation = log handle.slot generation := by
  rw [append, Function.update_self, Function.update_of_ne other]

theorem slotFine_request {handle : Handle} {request : Request Task}
    (fine : ∀ i, SlotFine history i)
    (generation : handle.generation = history.generation handle.slot)
    (own : (request.toUse handle.fd).target = some handle.slot) (i : Fin pipeMaxPipes) :
    SlotFine (history.after (.request handle request)) i := by
  have grows : history.closed ⊆ (history.after (.request handle request)).closed := by
    cases request with
    | close => exact Set.subset_insert _ _
    | read | write => exact subset_rfl
  by_cases here : i = handle.slot
  · subst here
    have served := serves request own (fine _).ordered (fine _).reader
    have others {other : Nat} (different : other ≠ history.generation handle.slot) :
        (history.after (.request handle request)).read handle.slot other =
            history.read handle.slot other ∧
          (history.after (.request handle request)).written handle.slot other =
            history.written handle.slot other := by
      rw [← generation] at different
      exact ⟨append_generation _ _ different, append_generation _ _ different⟩
    constructor
    · exact served.ordered
    · exact served.reader
    · show append _ handle _ handle.slot (history.generation handle.slot) ++ _ =
        append _ handle _ handle.slot (history.generation handle.slot)
      rw [← generation, append_self, append_self, generation, ← (fine _).current,
        List.append_assoc, List.append_assoc]
      exact congrArg _ served.bytes.symm
    · intro other before
      obtain ⟨read, written⟩ := others (Nat.ne_of_lt before)
      rw [read, written]
      exact (fine _).older other before
    · intro other later
      obtain ⟨read, written⟩ := others (Nat.ne_of_gt later)
      rw [read, written]
      exact (fine _).newer other later
    · intro ended some
      rcases served.readFd ended with before | ⟨rfl, side⟩
      · exact grows ((fine _).readClosed before some)
      · exact .inl (by rw [← side]; exact congrArg (Handle.mk _ · _) generation.symm)
    · intro ended some
      rcases served.writeFd ended with before | ⟨rfl, side⟩
      · exact grows ((fine _).writeClosed before some)
      · exact .inl (by rw [← side]; exact congrArg (Handle.mk _ · _) generation.symm)
    · intro other writeEnd some before
      exact grows ((fine _).past other writeEnd some before)
  · apply (fine i).of_same
    · apply serve_other
      rw [own]
      exact fun same => here (Option.some.inj same).symm
    · rfl
    · exact append_slot _ _ here
    · exact append_slot _ _ here
    · exact grows

/-- A request leads to its own pipe exactly when it is a careful one. -/
theorem apart_iff (fine : ∀ i, SlotFine history i) {event : PipeEvent Task}
    (issued : Issued history event) : Apart history event ↔ Careful history event := by
  cases event with
  | create =>
      constructor
      · intro apart i created
        obtain ⟨-, ended, waiting⟩ := apart i created
        exact ⟨ended, fun task writer => waiting task (.inr writer)⟩
      intro careful i created
      obtain ⟨ended, waiting⟩ := careful i created
      rcases pipeCreate_spec history.table with ⟨j, result, free, -⟩ | none
      · have same : j = i := Fin.ext (by rw [result] at created; exact_mod_cast created)
        subst same
        refine ⟨free, ended, ?_⟩
        rintro task (reader | writer)
        · rw [(fine j).reader ended] at reader
          cases reader
        · exact waiting task writer
      · rw [none.1] at created
        omega
  | request handle request =>
      have current : (handle ∈ history.closed → handle.generation = history.generation handle.slot) ↔
          handle.generation = history.generation handle.slot := by
        constructor
        · intro closed
          by_cases isClosed : handle ∈ history.closed
          · exact closed isClosed
          · exact (fine _).generation_of_open issued isClosed
        · exact fun same _ => same
      have leads : (request.toUse handle.fd).target = some handle.slot ↔
          request.RightEnd handle := by
        cases request with
        | read => exact iff_of_true handle.pipeIndex_read trivial
        | write => exact handle.pipeIndex_write
        | close => exact iff_of_true handle.target_close trivial
      rw [Apart, Careful, current, leads]
  | schedule => exact Iff.rfl

theorem slotFine_after (fine : ∀ i, SlotFine history i) {event : PipeEvent Task}
    (issued : Issued history event) (apart : Apart history event) (i : Fin pipeMaxPipes) :
    SlotFine (history.after event) i := by
  cases event with
  | create => exact slotFine_create fine ((apart_iff fine issued).mp apart) i
  | request handle request => exact slotFine_request fine apart.1 apart.2 i
  | schedule blocked => exact (fine i).of_same rfl rfl rfl rfl subset_rfl

end History

/-- In every run of calls with descriptors that have been handed out, the pipes of a slot stay
apart and carry their own bytes only, exactly when every step is careful. -/
theorem pipes_apart_iff {events : List (PipeEvent Task)}
    (issued : Along History.after History.Issued .boot events) :
    (Along History.after History.Apart .boot events ∧
        ∀ earlier, earlier <+: events → (earlier.foldl History.after .boot).Separate) ↔
      Along History.after History.Careful .boot events := by
  have keeps (history : History Task) (event : PipeEvent Task)
      (fine : ∀ i, history.SlotFine i) (issued : history.Issued event)
      (apart : history.Apart event) : ∀ i, (history.after event).SlotFine i :=
    History.slotFine_after fine issued apart
  have same := Along.congr keeps
    (fun _ _ fine issued => History.apart_iff fine issued) History.slotFine_boot issued
  constructor
  · intro apart
    exact same.mp apart.1
  · intro careful
    have apart := same.mpr careful
    refine ⟨apart, ?_⟩
    intro earlier early
    have fine := Along.invariant
      (fun history event fine both => keeps history event fine both.1 both.2)
      History.slotFine_boot ((issued.and apart).of_earlier early)
    exact fun slot generation => (fine slot).read_written generation

/-- A pipe is closed at both ends, and its slot is handed out again. -/
def reusedAfterBoth : List (PipeEvent Unit) :=
  [.create, .request ⟨0, 1, true⟩ .close, .request ⟨0, 1, false⟩ .close, .create]

theorem reusedAfterBoth_apart :
    Along History.after History.Apart .boot reusedAfterBoth ∧
      ∀ earlier, earlier <+: reusedAfterBoth →
        (earlier.foldl History.after .boot).Separate := by
  have first {table : Table Unit} {i : Fin pipeMaxPipes} (result : (pipeCreate table).result = 0)
      (created : (pipeCreate table).result = i) : i = 0 := by
    apply Fin.ext
    show i.val = 0
    omega
  have issued : Along History.after History.Issued .boot reusedAfterBoth :=
    ⟨trivial, ⟨le_rfl, le_rfl⟩, ⟨le_rfl, le_rfl⟩, trivial, trivial⟩
  apply (pipes_apart_iff issued).mpr
  refine ⟨?_, ⟨fun _ => rfl, trivial⟩, ⟨fun _ => rfl, trivial⟩, ?_, trivial⟩
  · intro i created
    rw [first rfl created]
    refine ⟨rfl, ?_⟩
    rintro task ⟨⟩
  · intro i created
    rw [first rfl created]
    refine ⟨rfl, ?_⟩
    rintro task ⟨⟩

/-- The read end of a pipe is closed, its slot is handed out again, and a byte is written with
the old write descriptor, which is open, and read with the new read descriptor. -/
def reusedAfterOne : List (PipeEvent Unit) :=
  [.create, .request ⟨0, 1, false⟩ .close, .create,
    .request ⟨0, 1, true⟩ (.write none (some fun _ => 7) 1),
    .request ⟨0, 2, false⟩ (.read none true 1)]

theorem reusedAfterOne_mixed :
    Along History.after History.Issued .boot reusedAfterOne ∧
      ¬ (Along History.after History.Apart .boot reusedAfterOne ∧
        ∀ earlier, earlier <+: reusedAfterOne →
          (earlier.foldl History.after .boot).Separate) := by
  constructor
  · exact ⟨trivial, ⟨le_rfl, le_rfl⟩, trivial, ⟨le_rfl, by decide⟩, ⟨by decide, le_rfl⟩, trivial⟩
  · intro apart
    have separate := apart.2 reusedAfterOne List.prefix_rfl 0 2
    have read : (reusedAfterOne.foldl History.after .boot).read 0 2 = [7] := rfl
    have written : (reusedAfterOne.foldl History.after .boot).written 0 2 = [] := rfl
    rw [read, written] at separate
    exact absurd (List.prefix_nil.mp separate) (by decide)

end Charis.Ipc
