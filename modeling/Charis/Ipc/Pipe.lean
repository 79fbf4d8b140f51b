import Charis.Lib.Ring
import Charis.Lib.Transition

/-!
# The table of pipes

Each pipe is a ring of bytes with two cursors, a count of its own, the tasks that wait at its
ends and its two descriptors.  A call finds the pipe by dividing the descriptor.
-/

namespace Charis.Ipc

open Charis.Lib

abbrev pipeMaxPipes : Nat := 32
abbrev pipeBufferSize : Nat := 4096

/-- `pipe_t`. -/
structure Pipe (Task : Type) where
  buffer : Nat → UInt8 := fun _ => 0
  readPos : Nat := 0
  writePos : Nat := 0
  count : Nat := 0
  reader : Option Task := none
  writer : Option Task := none
  readFd : Int := -1
  writeFd : Int := -1

abbrev Table (Task : Type) := Fin pipeMaxPipes → Pipe Task

variable {Task : Type}

/-- The table after `pipe_init`. -/
def pipeInit : Table Task := fun _ => {}

/-- What a call does: its result, the bytes that it moves, the task that it blocks, the task
that it wakes, and the table that it leaves. -/
structure Outcome (Task State : Type) where
  result : Int
  data : List UInt8 := []
  blocked : Option Task := none
  woken : Option Task := none
  state : State

/-- The descriptor leads to a pipe of the table. -/
def pipeIndex (index : Int) : Option (Fin pipeMaxPipes) :=
  if h : 0 ≤ index ∧ index < pipeMaxPipes then some ⟨index.toNat, by omega⟩ else none

/-- `pipe_create`. -/
def pipeCreate (pipes : Table Task) : Outcome Task (Table Task) :=
  match (List.finRange pipeMaxPipes).find? fun i => (pipes i).readFd = -1 with
  | some i =>
      { result := i
        state := Function.update pipes i
          { pipes i with
            count := 0, readPos := 0, writePos := 0
            readFd := i * 2, writeFd := i * 2 + 1, reader := none, writer := none } }
  | none => { result := -1, state := pipes }

namespace Pipe

/-- `pipe_read` on the pipe that it has found. -/
def read (pipe : Pipe Task) (current : Option Task) (count : Nat) : Outcome Task (Pipe Task) :=
  if pipe.count = 0 ∧ pipe.writeFd = -1 then { result := 0, state := pipe }
  else
    match if pipe.count = 0 then current else none with
    | some task =>
        { result := -2, blocked := some task, state := { pipe with reader := some task } }
    | none =>
        let toRead := min count pipe.count
        { result := toRead
          data := (List.range toRead).map fun i => pipe.buffer ((pipe.readPos + i) % pipeBufferSize)
          woken := pipe.writer
          state := { pipe with
            readPos := (pipe.readPos + toRead) % pipeBufferSize
            count := pipe.count - toRead
            writer := none } }

/-- `pipe_write` on the pipe that it has found. -/
def write (pipe : Pipe Task) (current : Option Task) (buf : Nat → UInt8) (count : Nat) :
    Outcome Task (Pipe Task) :=
  match if pipeBufferSize ≤ pipe.count then current else none with
  | some task =>
      { result := -2, blocked := some task, state := { pipe with writer := some task } }
  | none =>
      -- the free space is computed in 32 bits
      let toWrite := min count ((pipeBufferSize + 2 ^ 32 - pipe.count) % 2 ^ 32)
      { result := toWrite
        data := (List.range toWrite).map buf
        woken := pipe.reader
        state := { pipe with
          buffer := (List.range toWrite).foldl
            (fun buffer i =>
              Function.update buffer ((pipe.writePos + i) % pipeBufferSize) (buf i))
            pipe.buffer
          writePos := (pipe.writePos + toWrite) % pipeBufferSize
          count := (pipe.count + toWrite) % 2 ^ 32
          reader := none } }

def closeRead (pipe : Pipe Task) : Outcome Task (Pipe Task) :=
  { result := 0, woken := pipe.writer, state := { pipe with readFd := -1, writer := none } }

def closeWrite (pipe : Pipe Task) : Outcome Task (Pipe Task) :=
  { result := 0, woken := pipe.reader, state := { pipe with writeFd := -1, reader := none } }

end Pipe

/-- A call on one pipe of the table. -/
def onPipe (pipes : Table Task) (i : Fin pipeMaxPipes)
    (call : Pipe Task → Outcome Task (Pipe Task)) : Outcome Task (Table Task) :=
  { call (pipes i) with state := Function.update pipes i (call (pipes i)).state }

/-- `pipe_read`, for a buffer that is `NULL` or not. -/
def pipeRead (pipes : Table Task) (current : Option Task) (fd : Int) (buf : Bool)
    (count : Nat) : Outcome Task (Table Task) :=
  match pipeIndex (fd.tdiv 2) with
  | none => { result := -1, state := pipes }
  | some i =>
      if buf then onPipe pipes i (·.read current count) else { result := -1, state := pipes }

/-- `pipe_write`, for a buffer that is `NULL` or has some bytes from its start on. -/
def pipeWrite (pipes : Table Task) (current : Option Task) (fd : Int)
    (buf : Option (Nat → UInt8)) (count : Nat) : Outcome Task (Table Task) :=
  match pipeIndex ((fd - 1).tdiv 2) with
  | none => { result := -1, state := pipes }
  | some i =>
      match buf with
      | none => { result := -1, state := pipes }
      | some buf => onPipe pipes i (·.write current buf count)

/-- `pipe_close`. -/
def pipeClose (pipes : Table Task) (fd : Int) : Outcome Task (Table Task) :=
  if fd.tmod 2 = 0 then
    match pipeIndex (fd.tdiv 2) with
    | none => { result := 0, state := pipes }
    | some i => onPipe pipes i Pipe.closeRead
  else
    match pipeIndex ((fd - 1).tdiv 2) with
    | none => { result := 0, state := pipes }
    | some i => onPipe pipes i Pipe.closeWrite

/-- A call that is given a descriptor, with the task that makes it. -/
inductive Use (Task : Type) where
  | read (current : Option Task) (fd : Int) (buf : Bool) (count : Nat)
  | write (current : Option Task) (fd : Int) (buf : Option (Nat → UInt8)) (count : Nat)
  | close (fd : Int)

inductive Call (Task : Type) where
  | create
  | ofUse (use : Use Task)

def Use.serve (pipes : Table Task) : Use Task → Outcome Task (Table Task)
  | .read current fd buf count => pipeRead pipes current fd buf count
  | .write current fd buf count => pipeWrite pipes current fd buf count
  | .close fd => pipeClose pipes fd

def Call.serve (pipes : Table Task) : Call Task → Outcome Task (Table Task)
  | .create => pipeCreate pipes
  | .ofUse use => use.serve pipes

/-- The table after some calls. -/
def afterCalls (pipes : Table Task) (calls : List (Call Task)) : Table Task :=
  calls.foldl (fun pipes call => (call.serve pipes).state) pipes

/-- The pipe that a call is led to. -/
def Use.target : Use Task → Option (Fin pipeMaxPipes)
  | .read _ fd _ _ => pipeIndex (fd.tdiv 2)
  | .write _ fd _ _ => pipeIndex ((fd - 1).tdiv 2)
  | .close fd => if fd.tmod 2 = 0 then pipeIndex (fd.tdiv 2) else pipeIndex ((fd - 1).tdiv 2)

theorem pipeIndex_eq_some {index : Int} {i : Fin pipeMaxPipes} :
    pipeIndex index = some i ↔ index = i := by
  unfold pipeIndex
  constructor
  · intro found
    split at found
    · rw [Option.some.injEq] at found
      rw [← found]
      simp only
      omega
    · cases found
  · rintro rfl
    have bound := i.isLt
    rw [dif_pos ⟨by omega, by exact_mod_cast bound⟩]
    simp

theorem pipeIndex_eq_none {index : Int} :
    pipeIndex index = none ↔ index < 0 ∨ pipeMaxPipes ≤ index := by
  unfold pipeIndex pipeMaxPipes
  split <;> simp <;> omega

theorem onPipe_other {pipes : Table Task} {i j : Fin pipeMaxPipes} (other : j ≠ i)
    (call : Pipe Task → Outcome Task (Pipe Task)) : (onPipe pipes i call).state j = pipes j :=
  Function.update_of_ne other _ _

theorem onPipe_same (pipes : Table Task) (i : Fin pipeMaxPipes)
    (call : Pipe Task → Outcome Task (Pipe Task)) :
    (onPipe pipes i call).state i = (call (pipes i)).state :=
  Function.update_self _ _ _

section calls

variable (pipes : Table Task) (current : Option Task) {fd : Int} (count : Nat)
  {i : Fin pipeMaxPipes}

theorem pipeRead_found (found : pipeIndex (fd.tdiv 2) = some i) :
    pipeRead pipes current fd true count = onPipe pipes i (·.read current count) := by
  rw [pipeRead, found]
  rfl

theorem pipeRead_refused {buf : Bool} (refused : pipeIndex (fd.tdiv 2) = none ∨ buf = false) :
    pipeRead pipes current fd buf count = { result := -1, state := pipes } := by
  rw [pipeRead]
  cases found : pipeIndex (fd.tdiv 2) with
  | none => rfl
  | some i =>
      rw [found] at refused
      rw [refused.resolve_left (Option.some_ne_none i)]
      rfl

theorem pipeWrite_found (found : pipeIndex ((fd - 1).tdiv 2) = some i) (buf : Nat → UInt8) :
    pipeWrite pipes current fd (some buf) count =
      onPipe pipes i (·.write current buf count) := by
  rw [pipeWrite, found]

theorem pipeWrite_refused {buf : Option (Nat → UInt8)}
    (refused : pipeIndex ((fd - 1).tdiv 2) = none ∨ buf = none) :
    pipeWrite pipes current fd buf count = { result := -1, state := pipes } := by
  rw [pipeWrite]
  cases found : pipeIndex ((fd - 1).tdiv 2) with
  | none => rfl
  | some i =>
      rw [found] at refused
      rw [refused.resolve_left (Option.some_ne_none i)]

end calls

/-- A call changes at most the pipe that it is led to. -/
theorem serve_other {pipes : Table Task} {use : Use Task} {j : Fin pipeMaxPipes}
    (other : use.target ≠ some j) : (use.serve pipes).state j = pipes j := by
  have elsewhere : ∀ {i : Fin pipeMaxPipes} {call : Pipe Task → Outcome Task (Pipe Task)},
      use.target = some i → (onPipe pipes i call).state j = pipes j := by
    intro i call found
    apply onPipe_other
    rintro rfl
    exact other found
  cases use with
  | read current fd buf count =>
      rw [Use.serve]
      cases found : pipeIndex (fd.tdiv 2) with
      | none => rw [pipeRead_refused _ _ _ (.inl found)]
      | some i =>
          cases buf with
          | false => rw [pipeRead_refused _ _ _ (.inr rfl)]
          | true =>
              rw [pipeRead_found _ _ _ found]
              exact elsewhere found
  | write current fd buf count =>
      rw [Use.serve]
      cases found : pipeIndex ((fd - 1).tdiv 2) with
      | none => rw [pipeWrite_refused _ _ _ (.inl found)]
      | some i =>
          cases buf with
          | none => rw [pipeWrite_refused _ _ _ (.inr rfl)]
          | some buf =>
              rw [pipeWrite_found _ _ _ found]
              exact elsewhere found
  | close fd =>
  rw [Use.target] at elsewhere
  rw [Use.serve, pipeClose]
  split at elsewhere
  next even =>
    rw [if_pos even]
    split
    · rfl
    next found => exact elsewhere found
  next odd =>
    rw [if_neg odd]
    split
    · rfl
    next found => exact elsewhere found

theorem pipeCreate_other {pipes : Table Task} {j : Fin pipeMaxPipes}
    (opened : (pipes j).readFd ≠ -1) : (pipeCreate pipes).state j = pipes j := by
  unfold pipeCreate
  split
  next i found =>
    have free := List.find?_some found
    apply Function.update_of_ne
    rintro rfl
    exact opened (by simpa using free)
  · rfl

end Charis.Ipc
