import Charis.Ipc.Pipe

/-!
# The bytes of a pipe

As long as the read end of a pipe stays open, what has been read from the pipe, followed by
what it holds, is what has been written to it.
-/

namespace Charis.Ipc

open Charis.Lib

variable {Task : Type}

namespace Pipe

/-- The bytes that wait in a pipe. -/
def buffered (pipe : Pipe Task) : List UInt8 :=
  Ring.contents pipe.buffer pipeBufferSize pipe.readPos pipe.count

/-- The count fits the buffer, and the cursors are that far apart. -/
structure Ordered (pipe : Pipe Task) : Prop where
  bounded : pipe.count ≤ pipeBufferSize
  cursors : pipe.writePos = (pipe.readPos + pipe.count) % pipeBufferSize

variable {pipe : Pipe Task} (current : Option Task)

/-- A read takes its bytes from the front. -/
theorem read_spec (ordered : pipe.Ordered) (count : Nat) :
    (pipe.read current count).state.Ordered ∧
      pipe.buffered = (pipe.read current count).data ++ (pipe.read current count).state.buffered := by
  obtain ⟨bounded, cursors⟩ := ordered
  unfold read
  split
  · exact ⟨⟨bounded, cursors⟩, rfl⟩
  split
  · exact ⟨⟨bounded, cursors⟩, rfl⟩
  · have taken : min count pipe.count ≤ pipe.count := Nat.min_le_right _ _
    refine ⟨⟨Nat.le_trans (Nat.sub_le _ _) bounded, ?_⟩, Ring.contents_drop taken⟩
    dsimp only
    rw [cursors, Nat.mod_add_mod, Nat.add_assoc, Nat.add_sub_cancel' taken]

/-- A write puts its bytes at the end. -/
theorem write_spec (ordered : pipe.Ordered) (buf : Nat → UInt8) (count : Nat) :
    (pipe.write current buf count).state.Ordered ∧
      (pipe.write current buf count).state.buffered =
        pipe.buffered ++ (pipe.write current buf count).data := by
  obtain ⟨bounded, cursors⟩ := ordered
  unfold write
  split
  · exact ⟨⟨bounded, cursors⟩, (List.append_nil _).symm⟩
  have space : (pipeBufferSize + 2 ^ 32 - pipe.count) % 2 ^ 32 = pipeBufferSize - pipe.count := by
    unfold pipeBufferSize at bounded ⊢
    omega
  dsimp only
  rw [space]
  generalize stored : min count (pipeBufferSize - pipe.count) = toWrite
  have fits : pipe.count + toWrite ≤ pipeBufferSize := by omega
  have sum : (pipe.count + toWrite) % 2 ^ 32 = pipe.count + toWrite := by
    unfold pipeBufferSize at fits
    omega
  rw [sum]
  refine ⟨⟨fits, ?_⟩, Ring.contents_append buf toWrite fits cursors⟩
  dsimp only
  rw [cursors, Nat.mod_add_mod, Nat.add_assoc]

/-- The fields that hold the bytes are the same. -/
structure SameBytes (pipe pipe' : Pipe Task) : Prop where
  buffer : pipe'.buffer = pipe.buffer
  readPos : pipe'.readPos = pipe.readPos
  writePos : pipe'.writePos = pipe.writePos
  count : pipe'.count = pipe.count

namespace SameBytes

theorem refl (pipe : Pipe Task) : SameBytes pipe pipe := ⟨rfl, rfl, rfl, rfl⟩

end SameBytes

theorem read_blocked {count : Nat} (blocked : (pipe.read current count).result = -2) :
    SameBytes pipe (pipe.read current count).state := by
  unfold read at blocked ⊢
  split at blocked
  next closed => cases blocked
  split at blocked
  · rw [if_neg (by assumption)]
    exact ⟨rfl, rfl, rfl, rfl⟩
  · exact absurd blocked (by simp only; omega)

theorem write_blocked {buf : Nat → UInt8} {count : Nat}
    (blocked : (pipe.write current buf count).result = -2) :
    SameBytes pipe (pipe.write current buf count).state := by
  unfold write at blocked ⊢
  split at blocked
  · exact ⟨rfl, rfl, rfl, rfl⟩
  · exact absurd blocked (by simp only; omega)

end Pipe

/-- The bytes that a call puts into a pipe. -/
def Call.accepts (i : Fin pipeMaxPipes) (pipes : Table Task) : Call Task → List UInt8
  | .ofUse (.write current fd buf count) =>
      if pipeIndex ((fd - 1).tdiv 2) = some i then (pipeWrite pipes current fd buf count).data
      else []
  | _ => []

/-- The bytes that a call takes out of a pipe. -/
def Call.returns (i : Fin pipeMaxPipes) (pipes : Table Task) : Call Task → List UInt8
  | .ofUse (.read current fd buf count) =>
      if pipeIndex (fd.tdiv 2) = some i then (pipeRead pipes current fd buf count).data else []
  | _ => []

/-- The bytes that the writes of a run put into a pipe, in order. -/
def acceptedBytes (i : Fin pipeMaxPipes) : Table Task → List (Call Task) → List UInt8
  | _, [] => []
  | pipes, call :: calls => call.accepts i pipes ++ acceptedBytes i (call.serve pipes).state calls

/-- The bytes that the reads of a run take out of a pipe, in order. -/
def returnedBytes (i : Fin pipeMaxPipes) : Table Task → List (Call Task) → List UInt8
  | _, [] => []
  | pipes, call :: calls => call.returns i pipes ++ returnedBytes i (call.serve pipes).state calls

variable {pipes : Table Task} {i : Fin pipeMaxPipes}

/-- A pipe whose read end is open and whose cursors are in order. -/
structure Flowing (pipes : Table Task) (i : Fin pipeMaxPipes) : Prop where
  readFd : (pipes i).readFd = i * 2
  ordered : (pipes i).Ordered

/-- What a call does with the bytes of a flowing pipe. -/
structure Flows (pipes : Table Task) (i : Fin pipeMaxPipes) (call : Call Task) : Prop where
  flowing : Flowing (call.serve pipes).state i
  bytes : (pipes i).buffered ++ call.accepts i pipes =
    call.returns i pipes ++ ((call.serve pipes).state i).buffered

theorem Flows.of_unchanged {call : Call Task} (flowing : Flowing pipes i)
    (same : (call.serve pipes).state i = pipes i) (accepts : call.accepts i pipes = [])
    (returns : call.returns i pipes = []) : Flows pipes i call := by
  constructor
  · constructor
    · rw [same]
      exact flowing.readFd
    · rw [same]
      exact flowing.ordered
  · rw [same, accepts, returns, List.append_nil, List.nil_append]

theorem read_readFd (pipe : Pipe Task) (current : Option Task) (count : Nat) :
    (pipe.read current count).state.readFd = pipe.readFd ∧
      (pipe.read current count).state.writeFd = pipe.writeFd := by
  unfold Pipe.read
  split
  · exact ⟨rfl, rfl⟩
  split <;> exact ⟨rfl, rfl⟩

theorem write_readFd (pipe : Pipe Task) (current : Option Task) (buf : Nat → UInt8)
    (count : Nat) :
    (pipe.write current buf count).state.readFd = pipe.readFd ∧
      (pipe.write current buf count).state.writeFd = pipe.writeFd := by
  unfold Pipe.write
  split <;> exact ⟨rfl, rfl⟩

/-- An even descriptor that is led to a pipe is its read descriptor. -/
theorem eq_of_even {fd : Int} (even : fd.tmod 2 = 0) (found : pipeIndex (fd.tdiv 2) = some i) :
    fd = i * 2 := by
  rw [pipeIndex_eq_some] at found
  have parts := Int.mul_tdiv_add_tmod fd 2
  omega

/-- An odd descriptor that is led to a pipe is its write descriptor. -/
theorem eq_of_odd {fd : Int} (odd : fd.tmod 2 ≠ 0)
    (found : pipeIndex ((fd - 1).tdiv 2) = some i) : fd = i * 2 + 1 := by
  rw [pipeIndex_eq_some] at found
  have parts := Int.mul_tdiv_add_tmod (fd - 1) 2
  have low := Int.lt_tmod_of_pos (fd - 1) (show (0 : Int) < 2 by decide)
  have high := Int.tmod_lt_of_pos (fd - 1) (show (0 : Int) < 2 by decide)
  have uneven : ¬ (2 : Int) ∣ fd := fun even => odd (Int.tmod_eq_zero_of_dvd even)
  omega

/-- Every call but the close of its read end keeps a pipe flowing. -/
theorem flows (flowing : Flowing pipes i) {call : Call Task}
    (stays : call ≠ .ofUse (.close (i * 2))) : Flows pipes i call := by
  cases call with
  | create =>
      have opened : (pipes i).readFd ≠ -1 := by
        rw [flowing.readFd]
        omega
      exact .of_unchanged flowing (pipeCreate_other opened) rfl rfl
  | ofUse use =>
  by_cases here : use.target = some i
  case neg =>
    have same : (Call.serve pipes (.ofUse use)).state i = pipes i := serve_other here
    apply Flows.of_unchanged flowing same
    · cases use with
      | write current fd buf count => exact if_neg here
      | read | close => rfl
    · cases use with
      | read current fd buf count => exact if_neg here
      | write | close => rfl
  cases use with
  | read current fd buf count =>
      have found : pipeIndex (fd.tdiv 2) = some i := here
      cases buf with
      | false =>
          have refused := @pipeRead_refused Task pipes current fd count false (.inr rfl)
          apply Flows.of_unchanged flowing
          · rw [Call.serve, Use.serve, refused]
          · rfl
          · rw [Call.returns, if_pos found, refused]
      | true =>
      have reads := pipeRead_found pipes current count found
      obtain ⟨ordered, bytes⟩ := Pipe.read_spec current flowing.ordered count
      constructor
      · constructor
        · rw [Call.serve, Use.serve, reads, onPipe_same, (read_readFd _ _ _).1]
          exact flowing.readFd
        · rw [Call.serve, Use.serve, reads, onPipe_same]
          exact ordered
      · have accepts : Call.accepts i pipes (.ofUse (.read current fd true count)) = [] :=
          rfl
        rw [accepts, List.append_nil, Call.returns, if_pos found, Call.serve, Use.serve,
          reads, onPipe_same]
        exact bytes
  | write current fd buf count =>
      have found : pipeIndex ((fd - 1).tdiv 2) = some i := here
      cases buf with
      | none =>
          have refused := @pipeWrite_refused Task pipes current fd count none (.inr rfl)
          apply Flows.of_unchanged flowing
          · rw [Call.serve, Use.serve, refused]
          · rw [Call.accepts, if_pos found, refused]
          · rfl
      | some buf =>
      have writes := pipeWrite_found pipes current count found buf
      obtain ⟨ordered, bytes⟩ := Pipe.write_spec current flowing.ordered buf count
      constructor
      · constructor
        · rw [Call.serve, Use.serve, writes, onPipe_same, (write_readFd _ _ _ _).1]
          exact flowing.readFd
        · rw [Call.serve, Use.serve, writes, onPipe_same]
          exact ordered
      · rw [Call.accepts, if_pos found, Call.serve, Use.serve, writes, onPipe_same]
        exact bytes.symm
  | close fd =>
  by_cases even : fd.tmod 2 = 0
  · have found : pipeIndex (fd.tdiv 2) = some i := by
      rw [Use.target, if_pos even] at here
      exact here
    rw [eq_of_even even found] at stays
    exact absurd rfl stays
  have found : pipeIndex ((fd - 1).tdiv 2) = some i := by
    rw [Use.target, if_neg even] at here
    exact here
  have closes : (Call.serve pipes (.ofUse (.close fd))) = onPipe pipes i Pipe.closeWrite := by
    rw [Call.serve, Use.serve, pipeClose, if_neg even, found]
  constructor
  · constructor
    · rw [closes, onPipe_same]
      exact flowing.readFd
    · rw [closes, onPipe_same]
      exact ⟨flowing.ordered.bounded, flowing.ordered.cursors⟩
  · rw [closes, onPipe_same]
    exact List.append_nil _

/-- A call that would block changes no byte of any pipe. -/
theorem serve_blocked (pipes : Table Task) {call : Call Task}
    (blocked : (call.serve pipes).result = -2) (j : Fin pipeMaxPipes) :
    (pipes j).SameBytes ((call.serve pipes).state j) := by
  cases call with
  | create =>
      rw [Call.serve, pipeCreate] at blocked
      split at blocked
      · exact absurd blocked (by simp only; omega)
      · cases blocked
  | ofUse use =>
  by_cases here : use.target = some j
  case neg =>
    rw [Call.serve, serve_other here]
    exact .refl _
  cases use with
  | read current fd buf count =>
      cases buf with
      | false =>
          rw [Call.serve, Use.serve, pipeRead_refused _ _ _ (.inr rfl)] at blocked
          cases blocked
      | true =>
          have reads := pipeRead_found pipes current count
            (show pipeIndex (fd.tdiv 2) = some j from here)
          rw [Call.serve, Use.serve, reads] at blocked ⊢
          rw [onPipe_same]
          exact Pipe.read_blocked current blocked
  | write current fd buf count =>
      cases buf with
      | none =>
          rw [Call.serve, Use.serve, pipeWrite_refused _ _ _ (.inr rfl)] at blocked
          cases blocked
      | some buf =>
          have writes := pipeWrite_found pipes current count
            (show pipeIndex ((fd - 1).tdiv 2) = some j from here) buf
          rw [Call.serve, Use.serve, writes] at blocked ⊢
          rw [onPipe_same]
          exact Pipe.write_blocked current blocked
  | close fd =>
      rw [Call.serve, Use.serve, pipeClose] at blocked
      split at blocked
      · split at blocked <;> cases blocked
      · split at blocked <;> cases blocked

/-- A run keeps a pipe flowing, and carries its bytes in order. -/
theorem afterCalls_flows (flowing : Flowing pipes i) {calls : List (Call Task)}
    (stays : .ofUse (.close (i * 2)) ∉ calls) :
    Flowing (afterCalls pipes calls) i ∧
      (pipes i).buffered ++ acceptedBytes i pipes calls =
        returnedBytes i pipes calls ++ (afterCalls pipes calls i).buffered := by
  induction calls generalizing pipes with
  | nil => exact ⟨flowing, List.append_nil _⟩
  | cons call calls ih =>
  rw [List.mem_cons, not_or] at stays
  have first := flows flowing (Ne.symm stays.1)
  obtain ⟨flowing', bytes⟩ := ih first.flowing stays.2
  refine ⟨flowing', ?_⟩
  rw [acceptedBytes, returnedBytes, ← List.append_assoc, first.bytes, List.append_assoc,
    bytes, ← List.append_assoc]
  rfl

theorem pipeCreate_flowing {before : Table Task} (created : (pipeCreate before).result = i) :
    Flowing (pipeCreate before).state i ∧ ((pipeCreate before).state i).buffered = [] := by
  unfold pipeCreate at created ⊢
  split at created
  next j _ =>
    obtain rfl : j = i := Fin.ext (Int.ofNat.inj created)
    have fresh : Function.update before j
        { before j with
          count := 0, readPos := 0, writePos := 0
          readFd := j * 2, writeFd := j * 2 + 1, reader := none, writer := none } j = _ :=
      Function.update_self _ _ _
    constructor
    · constructor
      · dsimp only
        rw [fresh]
      · dsimp only
        rw [fresh]
        exact ⟨Nat.zero_le _, rfl⟩
    · dsimp only
      rw [fresh]
      rfl
  · exact absurd created (by simp only; omega)

/-- What holds of a pipe after some of its bytes have been read. -/
structure Streams (pipes : Table Task) (i : Fin pipeMaxPipes) (accepted returned : List UInt8) :
    Prop where
  bytes : returned ++ (pipes i).buffered = accepted
  bounded : (pipes i).count ≤ pipeBufferSize
  cursors : (pipes i).writePos = ((pipes i).readPos + (pipes i).count) % pipeBufferSize
  blocked : ∀ call : Call Task, (call.serve pipes).result = -2 →
    ∀ j, (pipes j).SameBytes ((call.serve pipes).state j)

/-- From its creation until its read end is closed, a pipe hands on the bytes that it accepts,
in order. -/
theorem pipe_streams {before : Table Task} (created : (pipeCreate before).result = i)
    {calls : List (Call Task)} (stays : .ofUse (.close (i * 2)) ∉ calls) :
    Streams (afterCalls (pipeCreate before).state calls) i
      (acceptedBytes i (pipeCreate before).state calls)
      (returnedBytes i (pipeCreate before).state calls) := by
  obtain ⟨flowing, empty⟩ := pipeCreate_flowing created
  obtain ⟨flowing', bytes⟩ := afterCalls_flows flowing stays
  rw [empty, List.nil_append] at bytes
  exact ⟨bytes.symm, flowing'.ordered.bounded, flowing'.ordered.cursors,
    fun _ => serve_blocked _⟩

/-- Three bytes are written and two are read. -/
theorem first_pipe_streams :
    Streams
      (afterCalls (pipeCreate pipeInit).state
        [.ofUse (.write (some ()) 1 (some fun i => UInt8.ofNat i) 3),
          .ofUse (.read (some ()) 0 true 2)])
      0 [0, 1, 2] [0, 1] :=
  pipe_streams (by rfl) (by simp)

end Charis.Ipc
