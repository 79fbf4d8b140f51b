import Charis.Lib.Transition
import Charis.Sched.Scheduler

/-!
# Signals

`kernel/signal.c` keeps a table of handlers and a mask of pending signals for every
task, and one table of default actions for all of them.  `signal_dispatch` serves the
lowest pending signal of the task that it is given, but its default action ends the
task that is running.

A handler is user code: a call of it is recorded, and its return, which clears the
pending bit, is a step of its own.
-/

namespace Charis.Sched

open Charis.Lib

/-- `SIG_MAX`. -/
abbrev sigMax : Nat := 32

abbrev Signal := Fin sigMax

abbrev sigIntsig : Signal := 2
abbrev sigTerminate : Signal := 15
abbrev sigSegv : Signal := 11
abbrev sigChld : Signal := 17
abbrev sigKill : Signal := 9

/-- `signal_action_t`. -/
inductive SignalAction where
  | sigDefault
  | sigIgnored
  | sigHandler
  deriving DecidableEq, Repr

/-- The tables of `signal.c`, with handlers from a type `H`, and the running task.  A
pointer to a task is null or leads to a slot of the task table. -/
structure Signals (H : Type) where
  handlers : TaskId → Signal → Option H := fun _ _ => none
  pending : TaskId → BitVec 32 := fun _ => 0
  defaults : Signal → SignalAction := fun _ => .sigDefault
  /-- `scheduler_current()`. -/
  current : Option TaskId := none
  /-- The handlers that have been called, with the task and the signal. -/
  called : List (TaskId × Signal × H) := []
  /-- The calls of handlers that have not returned. -/
  inside : List (TaskId × Signal) := []
  /-- The tasks that `task_exit` has ended. -/
  exited : List TaskId := []

variable {H : Type}

namespace Signals

/-- Set the bit of a pending signal. -/
def raise (s : Signals H) (t : TaskId) (sig : Signal) : Signals H :=
  { s with pending := Function.update s.pending t (s.pending t ||| 1#32 <<< sig.val) }

/-- Clear the bit of a pending signal. -/
def lower (s : Signals H) (t : TaskId) (sig : Signal) : Signals H :=
  { s with pending := Function.update s.pending t (s.pending t &&& ~~~(1#32 <<< sig.val)) }

/-- The signal is pending for the task. -/
def Pending (s : Signals H) (t : TaskId) (sig : Signal) : Prop :=
  (s.pending t).getLsbD sig = true

def setHandler (s : Signals H) (t : TaskId) (sig : Signal) (handler : Option H) : Signals H :=
  { s with
    handlers := Function.update s.handlers t (Function.update (s.handlers t) sig handler) }

end Signals

/-- The check `sig >= 0 && sig < SIG_MAX`. -/
def signalIndex (sig : Int) : Option Signal :=
  if h : 0 ≤ sig ∧ sig < sigMax then some ⟨sig.toNat, by omega⟩ else none

/-- `signal_init`. -/
def signalInit (s : Signals H) : Signals H :=
  let defaults := Function.update s.defaults sigIntsig .sigDefault
  let defaults := Function.update defaults sigTerminate .sigDefault
  let defaults := Function.update defaults sigSegv .sigDefault
  let defaults := Function.update defaults sigChld .sigIgnored
  let defaults := Function.update defaults sigKill .sigDefault
  { s with handlers := fun _ _ => none, pending := fun _ => 0, defaults }

/-- `signal_register`, for the running task. -/
def signalRegister (s : Signals H) (sig : Int) (handler : Option H) : Int × Signals H :=
  match s.current, signalIndex sig, handler with
  | some t, some sig, some handler => (0, s.setHandler t sig (some handler))
  | _, _, _ => (-1, s)

/-- `signal_unregister`, for the running task. -/
def signalUnregister (s : Signals H) (sig : Int) : Int × Signals H :=
  match s.current, signalIndex sig with
  | some t, some sig => (0, s.setHandler t sig none)
  | _, _ => (-1, s)

/-- `signal_send`.  An ignored signal without a handler is dropped, unless it is
`SIG_KILL`. -/
def signalSend (s : Signals H) (task : Option TaskId) (sig : Int) : Int × Signals H :=
  match task, signalIndex sig with
  | some t, some sig =>
      if sig = sigKill then (0, s.raise t sig)
      else if s.handlers t sig = none ∧ s.defaults sig = .sigIgnored then (0, s)
      else (0, s.raise t sig)
  | _, _ => (-1, s)

/-- `signal_check_pending_for_task`: the lowest pending signal. -/
def signalCheckPendingForTask (s : Signals H) (t : TaskId) : Option Signal :=
  (List.finRange sigMax).find? fun sig => (s.pending t).getLsbD sig

/-- `task_exit`, which ends the running task and does not return to it. -/
def taskExit (s : Signals H) : Signals H :=
  match s.current with
  | some t => { s with exited := s.exited ++ [t] }
  | none => s

/-- `signal_dispatch`, up to the call of a handler. -/
def signalDispatch (s : Signals H) (task : Option TaskId) : Signals H :=
  match task with
  | none => s
  | some t =>
      match signalCheckPendingForTask s t with
      | none => s
      | some sig =>
          match s.handlers t sig with
          | some handler =>
              { s with
                called := s.called ++ [(t, sig, handler)]
                inside := (t, sig) :: s.inside }
          | none =>
              match s.defaults sig with
              | .sigDefault => taskExit s
              | .sigIgnored | .sigHandler => s.lower t sig

/-- The rest of `signal_dispatch`, after the handler has returned. -/
def handlerReturns (s : Signals H) (t : TaskId) (sig : Signal) : Signals H :=
  { s.lower t sig with inside := s.inside.erase (t, sig) }

/-- `signal_set_default`. -/
def signalSetDefault (s : Signals H) (sig : Int) (action : SignalAction) : Signals H :=
  match signalIndex sig with
  | some sig => { s with defaults := Function.update s.defaults sig action }
  | none => s

inductive SignalEvent (H : Type) where
  | register (sig : Int) (handler : Option H)
  | unregister (sig : Int)
  | send (task : Option TaskId) (sig : Int)
  | dispatch (task : Option TaskId)
  | handlerReturns (t : TaskId) (sig : Signal)
  | setDefault (sig : Int) (action : SignalAction)
  /-- The scheduler makes another task the running one. -/
  | switchTo (task : Option TaskId)

def Signals.after (s : Signals H) : SignalEvent H → Signals H
  | .register sig handler => (signalRegister s sig handler).2
  | .unregister sig => (signalUnregister s sig).2
  | .send task sig => (signalSend s task sig).2
  | .dispatch task => signalDispatch s task
  | .handlerReturns t sig => Sched.handlerReturns s t sig
  | .setDefault sig action => signalSetDefault s sig action
  | .switchTo task => { s with current := task }

/-- Only a handler that has been called returns. -/
def SignalStep (s : Signals H) (event : SignalEvent H) (s' : Signals H) : Prop :=
  (∀ t sig, event = .handlerReturns t sig → (t, sig) ∈ s.inside) ∧ s' = s.after event

/-- The state that `signal_init` leaves at boot. -/
def bootSignals : Signals H := signalInit {}

end Charis.Sched
