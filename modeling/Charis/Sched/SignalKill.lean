import Charis.Sched.Signals

/-!
# `SIG_KILL`

`signal_send` always makes `SIG_KILL` pending, but `signal_dispatch` treats it like
every other signal: a handler that was registered for it is called, its default action
can be changed, and the default action ends the running task, whichever task the
signal was for.  Without these three, a task for which `SIG_KILL` is pending is ended
after its lower signals have been served.
-/

namespace Charis.Sched

open Charis.Lib

variable {H : Type} {s s' : Signals H} {t u : TaskId} {sig k : Signal}

instance (s : Signals H) (t : TaskId) (sig : Signal) : Decidable (s.Pending t sig) :=
  inferInstanceAs (Decidable (_ = _))

theorem getLsbD_bit (sig k : Signal) :
    (1#32 <<< sig.val).getLsbD k = decide (k = sig) := by
  revert sig k
  decide

@[simp] theorem raise_pending :
    (s.raise t sig).Pending u k ↔ s.Pending u k ∨ u = t ∧ k = sig := by
  simp only [Signals.Pending, Signals.raise]
  by_cases same : u = t
  · subst same
    rw [Function.update_self, BitVec.getLsbD_or, getLsbD_bit]
    simp
  · rw [Function.update_of_ne same]
    simp [same]

@[simp] theorem lower_pending :
    (s.lower t sig).Pending u k ↔ s.Pending u k ∧ ¬ (u = t ∧ k = sig) := by
  simp only [Signals.Pending, Signals.lower]
  by_cases same : u = t
  · subst same
    rw [Function.update_self, BitVec.getLsbD_and, BitVec.getLsbD_not, getLsbD_bit]
    simp [k.isLt]
  · rw [Function.update_of_ne same]
    simp [same]

/-- The signal that is served is pending, and no lower one is. -/
theorem lowest_of_check (found : signalCheckPendingForTask s t = some sig) :
    s.Pending t sig ∧ ∀ k < sig, ¬ s.Pending t k := by
  obtain ⟨here, before, behind, split, clear⟩ := List.find?_eq_some_iff_append.mp found
  refine ⟨here, ?_⟩
  intro k below pending
  have ordered := List.pairwise_lt_finRange sigMax
  rw [split] at ordered
  have listed : k ∈ before ++ sig :: behind := by
    rw [← split]
    exact List.mem_finRange k
  rcases List.mem_append.mp listed with early | late
  · have clearHere := clear k early
    rw [show (s.pending t).getLsbD k = true from pending] at clearHere
    cases clearHere
  · rcases List.mem_cons.mp late with same | later
    · exact absurd below (by rw [same]; exact lt_irrefl sig)
    · have above := (List.pairwise_cons.mp (List.pairwise_append.mp ordered).2.1).1 k later
      exact absurd below (not_lt_of_gt above)

theorem lowest_le (found : signalCheckPendingForTask s t = some sig) (pending : s.Pending t k) :
    sig ≤ k := by
  by_contra above
  exact (lowest_of_check found).2 k (not_le.mp above) pending

theorem exists_lowest (pending : s.Pending t k) :
    ∃ sig, signalCheckPendingForTask s t = some sig ∧ sig ≤ k := by
  cases found : signalCheckPendingForTask s t with
  | none =>
      have clear := List.find?_eq_none.mp found k (List.mem_finRange k)
      exact absurd pending clear
  | some sig => exact ⟨sig, rfl, lowest_le found pending⟩

/-- What a dispatch does: nothing, a call of a handler, the end of the running task, or
the signal is dropped. -/
inductive Dispatched (s : Signals H) (t : TaskId) : Prop
  | idle (found : signalCheckPendingForTask s t = none)
      (same : signalDispatch s (some t) = s)
  | calls {sig : Signal} {handler : H} (found : signalCheckPendingForTask s t = some sig)
      (caught : s.handlers t sig = some handler)
      (same : signalDispatch s (some t) =
        { s with
          called := s.called ++ [(t, sig, handler)]
          inside := (t, sig) :: s.inside })
  | ends {sig : Signal} (found : signalCheckPendingForTask s t = some sig)
      (free : s.handlers t sig = none) (fatal : s.defaults sig = .sigDefault)
      (same : signalDispatch s (some t) = taskExit s)
  | drops {sig : Signal} (found : signalCheckPendingForTask s t = some sig)
      (free : s.handlers t sig = none) (spared : s.defaults sig ≠ .sigDefault)
      (same : signalDispatch s (some t) = s.lower t sig)

theorem dispatch_cases (s : Signals H) (t : TaskId) : Dispatched s t := by
  cases found : signalCheckPendingForTask s t with
  | none => exact .idle found (by simp only [signalDispatch, found])
  | some sig =>
  cases handler : s.handlers t sig with
  | some h => exact .calls found handler (by simp only [signalDispatch, found, handler])
  | none =>
  cases action : s.defaults sig with
  | sigDefault =>
      exact .ends found handler action
        (by simp only [signalDispatch, found, handler, action])
  | sigIgnored | sigHandler =>
      exact .drops found handler (by rw [action]; nofun)
        (by simp only [signalDispatch, found, handler, action])

/-- What a dispatch of a task for which `SIG_KILL` is pending may do: it calls no
handler for it, ends no other task, and ends this one or serves a lower signal. -/
structure Obeys (s : Signals H) (t : TaskId) : Prop where
  uncaught : ∀ call ∈ (signalDispatch s (some t)).called.drop s.called.length,
    call.2.1 ≠ sigKill
  alone : ∀ u ∈ (signalDispatch s (some t)).exited.drop s.exited.length, u = t
  served : t ∈ (signalDispatch s (some t)).exited.drop s.exited.length ∨
    ∃ sig < sigKill, signalCheckPendingForTask s t = some sig ∧
      (s.handlers t sig ≠ none ∨ s.defaults sig ≠ .sigDefault)

/-- The task itself is running when a default action ends it, and `SIG_KILL` has no
handler and its own default action when it is served. -/
structure Exposed (s : Signals H) (t : TaskId) : Prop where
  own : ∀ sig, signalCheckPendingForTask s t = some sig → s.handlers t sig = none →
    s.defaults sig = .sigDefault → s.current = some t
  fatal : signalCheckPendingForTask s t = some sigKill →
    s.handlers t sigKill = none ∧ s.defaults sigKill = .sigDefault

theorem obeys_iff_exposed (pending : s.Pending t sigKill) : Obeys s t ↔ Exposed s t := by
  cases dispatch_cases s t with
  | idle found same =>
      obtain ⟨sig, other, -⟩ := exists_lowest pending
      rw [found] at other
      cases other
  | calls found caught same =>
      rename_i sig handler
      constructor
      · intro obeys
        have uncaught := obeys.uncaught
        rw [same] at uncaught
        have other : sig ≠ sigKill := uncaught (t, sig, handler) (by simp)
        constructor
        · intro k found' free _
          rw [found, Option.some.injEq] at found'
          rw [← found', caught] at free
          cases free
        · intro found'
          rw [found, Option.some.injEq] at found'
          exact absurd found' other
      intro exposed
      have other : sig ≠ sigKill := by
        rintro rfl
        rw [(exposed.fatal found).1] at caught
        cases caught
      constructor
      · rw [same]
        simpa using other
      · rw [same]
        simp
      · right
        exact ⟨sig, lt_of_le_of_ne (lowest_le found pending) other, found,
          .inl (by rw [caught]; nofun)⟩
  | ends found free fatal same =>
      rename_i sig
      constructor
      · intro obeys
        have running : s.current = some t := by
          rcases obeys.served with ended | ⟨k, -, found', spared⟩
          · have alone := obeys.alone
            rw [same] at ended alone
            cases running : s.current with
            | none => simp [taskExit, running] at ended
            | some c => rw [alone c (by simp [taskExit, running])]
          · rw [found, Option.some.injEq] at found'
            rw [← found'] at spared
            rcases spared with caught | ignored
            · exact absurd free caught
            · exact absurd fatal ignored
        refine ⟨fun _ _ _ _ => running, ?_⟩
        intro found'
        rw [found, Option.some.injEq] at found'
        rw [← found']
        exact ⟨free, fatal⟩
      · intro exposed
        have running := exposed.own sig found free fatal
        constructor
        · rw [same]
          simp [taskExit, running]
        · rw [same]
          simp [taskExit, running]
        · left
          rw [same]
          simp [taskExit, running]
  | drops found free spared same =>
  rename_i sig
  constructor
  · intro obeys
    have other : sig ≠ sigKill := by
      rcases obeys.served with ended | ⟨k, below, found', -⟩
      · rw [same] at ended
        simp [Signals.lower] at ended
      · rw [found, Option.some.injEq] at found'
        rw [found']
        exact ne_of_lt below
    constructor
    · intro k found' _ fatal
      rw [found, Option.some.injEq] at found'
      rw [← found'] at fatal
      exact absurd fatal spared
    · intro found'
      rw [found, Option.some.injEq] at found'
      exact absurd found' other
  · intro exposed
    have other : sig ≠ sigKill := by
      rintro rfl
      exact spared (exposed.fatal found).2
    constructor
    · rw [same]
      simp [Signals.lower]
    · rw [same]
      simp [Signals.lower]
    · right
      exact ⟨sig, lt_of_le_of_ne (lowest_le found pending) other, found, .inr spared⟩

/-! ## Histories -/

/-- A task for which `SIG_KILL` is pending is dispatched only when that is not caught,
does not end another task, and does not serve the signal that the task is handling. -/
def Guarded (s : Signals H) : SignalEvent H → Prop
  | .dispatch (some t) => s.Pending t sigKill →
      Exposed s t ∧ ∀ sig, signalCheckPendingForTask s t = some sig → (t, sig) ∉ s.inside
  | _ => True

/-- No handler of `SIG_KILL` has been called. -/
structure Uncaught (s : Signals H) : Prop where
  called : ∀ call ∈ s.called, call.2.1 ≠ sigKill
  inside : ∀ t, (t, sigKill) ∉ s.inside

@[simp] theorem taskExit_pending : (taskExit s).pending = s.pending := by
  unfold taskExit
  split <;> rfl

@[simp] theorem taskExit_inside : (taskExit s).inside = s.inside := by
  unfold taskExit
  split <;> rfl

theorem signalRegister_frame (number : Int) (handler : Option H) :
    (signalRegister s number handler).2.pending = s.pending ∧
      (signalRegister s number handler).2.inside = s.inside ∧
      (signalRegister s number handler).2.exited = s.exited := by
  unfold signalRegister
  split <;> exact ⟨rfl, rfl, rfl⟩

theorem signalUnregister_frame (number : Int) :
    (signalUnregister s number).2.pending = s.pending ∧
      (signalUnregister s number).2.inside = s.inside ∧
      (signalUnregister s number).2.exited = s.exited := by
  unfold signalUnregister
  split <;> exact ⟨rfl, rfl, rfl⟩

theorem signalSetDefault_frame (number : Int) (action : SignalAction) :
    (signalSetDefault s number action).pending = s.pending ∧
      (signalSetDefault s number action).inside = s.inside ∧
      (signalSetDefault s number action).exited = s.exited := by
  unfold signalSetDefault
  split <;> exact ⟨rfl, rfl, rfl⟩

theorem signalIndex_eq {number : Int} (index : signalIndex number = some sig) :
    number = (sig.val : Int) := by
  unfold signalIndex at index
  split at index
  · next inside =>
    cases index
    simp only
    omega
  · cases index

/-- A signal is made pending for the task, or nothing happens. -/
theorem signalSend_cases (u : TaskId) (number : Int) :
    (signalSend s (some u) number).2 = s ∨
      ∃ sig : Signal, number = (sig.val : Int) ∧
        (signalSend s (some u) number).2 = s.raise u sig := by
  unfold signalSend
  split
  · next t sig same index =>
    cases same
    split
    · exact .inr ⟨sig, signalIndex_eq index, rfl⟩
    · split
      · exact .inl rfl
      · exact .inr ⟨sig, signalIndex_eq index, rfl⟩
  · exact .inl rfl

theorem step_uncaught {event : SignalEvent H} (uncaught : Uncaught s)
    (guarded : Guarded s event) (step : SignalStep s event s') : Uncaught s' := by
  obtain ⟨enabled, rfl⟩ := step
  cases event with
  | register number handler =>
      simp only [Signals.after, signalRegister]
      split <;> exact ⟨uncaught.called, uncaught.inside⟩
  | unregister number =>
      simp only [Signals.after, signalUnregister]
      split <;> exact ⟨uncaught.called, uncaught.inside⟩
  | send task number =>
      cases task with
      | none => exact uncaught
      | some u =>
      simp only [Signals.after]
      rcases signalSend_cases (s := s) u number with same | ⟨sig, -, same⟩
      · rw [same]
        exact uncaught
      · rw [same]
        exact ⟨uncaught.called, uncaught.inside⟩
  | dispatch task =>
      cases task with
      | none => exact uncaught
      | some u =>
      simp only [Signals.after]
      cases dispatch_cases s u with
      | idle found same => rw [same]; exact uncaught
      | calls found caught same =>
          rename_i sig handler
          have other : sig ≠ sigKill := by
            rintro rfl
            have free := ((guarded (lowest_of_check found).1).1.fatal found).1
            rw [free] at caught
            cases caught
          rw [same]
          constructor
          · intro call member
            rcases List.mem_append.mp member with before | now
            · exact uncaught.called call before
            · rw [List.mem_singleton.mp now]
              exact other
          · intro t member
            rcases List.mem_cons.mp member with now | before
            · exact other (Prod.mk.inj now).2.symm
            · exact uncaught.inside t before
      | ends found free fatal same =>
          rw [same]
          unfold taskExit
          split <;> exact ⟨uncaught.called, uncaught.inside⟩
      | drops found free spared same =>
          rw [same]
          exact ⟨uncaught.called, uncaught.inside⟩
  | handlerReturns u sig =>
      refine ⟨uncaught.called, ?_⟩
      intro t member
      exact uncaught.inside t (List.mem_of_mem_erase member)
  | setDefault number action =>
      simp only [Signals.after, signalSetDefault]
      split <;> exact ⟨uncaught.called, uncaught.inside⟩
  | switchTo task => exact ⟨uncaught.called, uncaught.inside⟩

theorem run_uncaught {start : Signals H} {events : List (SignalEvent H)}
    (initially : Uncaught start) (run : Run (Restrict SignalStep Guarded) start events s) :
    Uncaught s := by
  induction run with
  | start => exact initially
  | next _ step ih => exact step_uncaught ih step.1 step.2

/-- The pending signals below `SIG_KILL`. -/
def pendingBelow (s : Signals H) (t : TaskId) : Finset Signal :=
  Finset.univ.filter fun sig => sig < sigKill ∧ s.Pending t sig

/-- Those of them that are not being handled. -/
def waitingBelow (s : Signals H) (t : TaskId) : Finset Signal :=
  (pendingBelow s t).filter fun sig => (t, sig) ∉ s.inside

theorem mem_waitingBelow :
    sig ∈ waitingBelow s t ↔ (sig < sigKill ∧ s.Pending t sig) ∧ (t, sig) ∉ s.inside := by
  rw [waitingBelow, Finset.mem_filter, pendingBelow, Finset.mem_filter]
  simp

/-- One for a dispatch of the task. -/
def SignalEvent.dispatches (t : TaskId) : SignalEvent H → Nat
  | .dispatch (some u) => if u = t then 1 else 0
  | _ => 0

/-- One for a signal below `SIG_KILL` that is sent to the task. -/
def SignalEvent.sends (t : TaskId) : SignalEvent H → Nat
  | .send (some u) sig => if u = t ∧ sig < 9 then 1 else 0
  | _ => 0

/-- The task has ended since, or `SIG_KILL` is still pending and every dispatch has served
one of the signals that were pending or have been sent. -/
def Doomed (start s : Signals H) (t : TaskId) (dispatches sends : Nat) : Prop :=
  ∃ ended, s.exited = start.exited ++ ended ∧
    (t ∈ ended ∨ s.Pending t sigKill ∧
      dispatches + (waitingBelow s t).card ≤ (pendingBelow start t).card + sends)

theorem Doomed.of_step {start : Signals H} {dispatches sends dispatches' sends' : Nat}
    {tasks : List TaskId} (doomed : Doomed start s t dispatches sends)
    (more : s'.exited = s.exited ++ tasks)
    (kept : s.Pending t sigKill → t ∈ tasks ∨ s'.Pending t sigKill ∧
      dispatches' + (waitingBelow s' t).card + sends ≤
        dispatches + (waitingBelow s t).card + sends') :
    Doomed start s' t dispatches' sends' := by
  obtain ⟨before, exits, state⟩ := doomed
  refine ⟨before ++ tasks, by rw [more, exits, List.append_assoc], ?_⟩
  rcases state with member | ⟨pending, bound⟩
  · left
    exact List.mem_append_left tasks member
  · rcases kept pending with ended | ⟨pending', count⟩
    · left
      exact List.mem_append_right before ended
    · right
      exact ⟨pending', by omega⟩

/-- Nothing changes for the task. -/
theorem Doomed.of_frame {start : Signals H} {dispatches sends : Nat} {tasks : List TaskId}
    (doomed : Doomed start s t dispatches sends) (more : s'.exited = s.exited ++ tasks)
    (frame : ∀ sig, (s'.Pending t sig ↔ s.Pending t sig) ∧
      ((t, sig) ∈ s'.inside ↔ (t, sig) ∈ s.inside)) :
    Doomed start s' t dispatches sends := by
  apply doomed.of_step more
  intro kill
  have same : waitingBelow s' t = waitingBelow s t := by
    ext sig
    rw [mem_waitingBelow, mem_waitingBelow, (frame sig).1, (frame sig).2]
  right
  exact ⟨(frame sigKill).1.mpr kill, by rw [same]⟩

theorem Doomed.of_same {start : Signals H} {dispatches sends : Nat}
    (doomed : Doomed start s t dispatches sends)
    (frame : s'.pending = s.pending ∧ s'.inside = s.inside ∧ s'.exited = s.exited) :
    Doomed start s' t dispatches sends := by
  obtain ⟨pending, inside, exited⟩ := frame
  apply doomed.of_frame (exited.trans (List.append_nil _).symm)
  intro sig
  rw [Signals.Pending, Signals.Pending, pending, inside]
  exact ⟨Iff.rfl, Iff.rfl⟩

theorem taskExit_exited (s : Signals H) : ∃ tasks, (taskExit s).exited = s.exited ++ tasks := by
  unfold taskExit
  split
  · next c _ => exact ⟨[c], rfl⟩
  · exact ⟨[], by rw [List.append_nil]⟩

theorem signalSend_waiting (u : TaskId) (number : Int) :
    (waitingBelow (signalSend s (some u) number).2 t).card ≤
      (waitingBelow s t).card + (SignalEvent.send (H := H) (some u) number).sends t := by
  rcases signalSend_cases (s := s) u number with same | ⟨sig, rfl, same⟩
  · rw [same]
    exact Nat.le_add_right _ _
  rw [same]
  have below_iff : ((sig.val : Int) < 9) ↔ sig < sigKill := by
    rw [Fin.lt_def, show (sigKill : Signal).val = 9 from rfl]
    omega
  simp only [SignalEvent.sends, below_iff]
  split
  · have fewer : waitingBelow (s.raise u sig) t ⊆ insert sig (waitingBelow s t) := by
      intro k member
      obtain ⟨⟨below, pending⟩, free⟩ := mem_waitingBelow.mp member
      rcases raise_pending.mp pending with before | ⟨-, rfl⟩
      · exact Finset.mem_insert_of_mem (mem_waitingBelow.mpr ⟨⟨below, before⟩, free⟩)
      · exact Finset.mem_insert_self k _
    exact (Finset.card_le_card fewer).trans (Finset.card_insert_le sig _)
  · next miss =>
    have fewer : waitingBelow (s.raise u sig) t ⊆ waitingBelow s t := by
      intro k member
      obtain ⟨⟨below, pending⟩, free⟩ := mem_waitingBelow.mp member
      rcases raise_pending.mp pending with before | ⟨rfl, rfl⟩
      · exact mem_waitingBelow.mpr ⟨⟨below, before⟩, free⟩
      · exact absurd ⟨rfl, below⟩ miss
    exact Finset.card_le_card fewer

theorem Doomed.send {start : Signals H} {dispatches sends : Nat}
    (doomed : Doomed start s t dispatches sends) (u : TaskId) (number : Int) :
    Doomed start (signalSend s (some u) number).2 t dispatches
      (sends + (SignalEvent.send (H := H) (some u) number).sends t) := by
  have count := signalSend_waiting (s := s) (t := t) u number
  have kept : s.Pending t sigKill → (signalSend s (some u) number).2.Pending t sigKill := by
    intro kill
    rcases signalSend_cases (s := s) u number with same | ⟨sig, -, same⟩
    · rw [same]
      exact kill
    · rw [same]
      exact raise_pending.mpr (.inl kill)
  have ended : (signalSend s (some u) number).2.exited = s.exited ++ [] := by
    rw [List.append_nil]
    rcases signalSend_cases (s := s) u number with same | ⟨sig, -, same⟩
    · rw [same]
    · rw [same]
      rfl
  apply doomed.of_step ended
  intro kill
  right
  exact ⟨kept kill, by omega⟩

/-- A dispatch of another task. -/
theorem Doomed.other {start : Signals H} {dispatches sends : Nat} {u : TaskId}
    (doomed : Doomed start s t dispatches sends) (other : t ≠ u) :
    Doomed start (signalDispatch s (some u)) t dispatches sends := by
  cases dispatch_cases s u with
  | idle _ same => rw [same]; exact doomed
  | calls _ _ same =>
      rw [same]
      refine doomed.of_frame (List.append_nil _).symm ?_
      intro k
      exact ⟨Iff.rfl, by simp [other]⟩
  | ends _ _ _ same =>
      rw [same]
      obtain ⟨tasks, more⟩ := taskExit_exited s
      apply doomed.of_frame more
      intro k
      rw [Signals.Pending, taskExit_pending, taskExit_inside]
      exact ⟨Iff.rfl, Iff.rfl⟩
  | drops _ _ _ same =>
      rw [same]
      refine doomed.of_frame (List.append_nil _).symm ?_
      intro k
      exact ⟨by simp [other], Iff.rfl⟩

/-- The signal that is served was waiting, and waits no more. -/
theorem Doomed.serve {start : Signals H} {dispatches sends : Nat}
    (doomed : Doomed start s t dispatches sends) (more : s'.exited = s.exited)
    (below : sig < sigKill) (pending : s.Pending t sig) (free : (t, sig) ∉ s.inside)
    (kept : s.Pending t sigKill → s'.Pending t sigKill)
    (served : ∀ k, s'.Pending t k → (t, k) ∉ s'.inside →
      k ≠ sig ∧ s.Pending t k ∧ (t, k) ∉ s.inside) :
    Doomed start s' t (dispatches + 1) sends := by
  apply doomed.of_step (more.trans (List.append_nil _).symm)
  intro kill
  have fewer : waitingBelow s' t ⊆ (waitingBelow s t).erase sig := by
    intro k member
    obtain ⟨⟨low, pending'⟩, free'⟩ := mem_waitingBelow.mp member
    obtain ⟨other, before, outside⟩ := served k pending' free'
    exact Finset.mem_erase.mpr ⟨other, mem_waitingBelow.mpr ⟨⟨low, before⟩, outside⟩⟩
  have waited : sig ∈ waitingBelow s t := mem_waitingBelow.mpr ⟨⟨below, pending⟩, free⟩
  have count := Finset.card_le_card fewer
  rw [Finset.card_erase_of_mem waited] at count
  have some_waiting := Finset.card_pos.mpr ⟨sig, waited⟩
  right
  exact ⟨kept kill, by omega⟩

theorem signalDispatch_exited (s : Signals H) (u : TaskId) :
    ∃ tasks, (signalDispatch s (some u)).exited = s.exited ++ tasks := by
  cases dispatch_cases s u with
  | idle _ same => exact ⟨[], by rw [same, List.append_nil]⟩
  | calls _ _ same => exact ⟨[], by rw [same, List.append_nil]⟩
  | ends _ _ _ same => rw [same]; exact taskExit_exited s
  | drops _ _ _ same => exact ⟨[], by rw [same, List.append_nil]; rfl⟩

/-- A dispatch of the task itself. -/
theorem Doomed.own {start : Signals H} {dispatches sends : Nat}
    (doomed : Doomed start s t dispatches sends)
    (guarded : Guarded s (.dispatch (some t))) :
    Doomed start (signalDispatch s (some t)) t (dispatches + 1) sends := by
  by_cases kill : s.Pending t sigKill
  · obtain ⟨exposed, fresh⟩ := guarded kill
    cases dispatch_cases s t with
    | idle found same =>
        obtain ⟨sig, other, -⟩ := exists_lowest kill
        rw [found] at other
        cases other
    | calls found handler same =>
        rename_i sig h
        rw [same]
        have below : sig < sigKill := by
          apply lt_of_le_of_ne (lowest_le found kill)
          rintro rfl
          rw [(exposed.fatal found).1] at handler
          cases handler
        refine doomed.serve rfl below (lowest_of_check found).1 (fresh sig found) id ?_
        intro k pending free
        simp only [List.mem_cons, Prod.mk.injEq, true_and, not_or] at free
        exact ⟨free.1, pending, free.2⟩
    | ends found free fatal same =>
        rw [same]
        have running := exposed.own _ found free fatal
        have more : (taskExit s).exited = s.exited ++ [t] := by
          simp [taskExit, running]
        apply doomed.of_step more
        intro _
        left
        exact List.mem_singleton_self t
    | drops found free spared same =>
    rename_i sig
    rw [same]
    have below : sig < sigKill := by
      apply lt_of_le_of_ne (lowest_le found kill)
      rintro rfl
      exact spared (exposed.fatal found).2
    refine doomed.serve rfl below (lowest_of_check found).1 (fresh sig found) ?_ ?_
    · intro before
      exact lower_pending.mpr ⟨before, fun both => absurd both.2 (ne_of_gt below)⟩
    · intro k pending outside
      obtain ⟨before, other⟩ := lower_pending.mp pending
      exact ⟨fun same => other ⟨rfl, same⟩, before, outside⟩
  · obtain ⟨tasks, more⟩ := signalDispatch_exited s t
    apply doomed.of_step more
    intro pending
    exact absurd pending kill

theorem Doomed.returns {start : Signals H} {dispatches sends : Nat}
    (doomed : Doomed start s t dispatches sends) (uncaught : Uncaught s)
    (active : (u, sig) ∈ s.inside) :
    Doomed start (handlerReturns s u sig) t dispatches sends := by
  refine doomed.of_step (List.append_nil _).symm ?_
  intro kill
  right
  constructor
  · refine lower_pending.mpr ⟨kill, ?_⟩
    rintro ⟨rfl, rfl⟩
    exact uncaught.inside t active
  have fewer : waitingBelow (handlerReturns s u sig) t ⊆ waitingBelow s t := by
    intro k member
    obtain ⟨⟨low, pending⟩, free⟩ := mem_waitingBelow.mp member
    obtain ⟨before, other⟩ := lower_pending.mp pending
    refine mem_waitingBelow.mpr ⟨⟨low, before⟩, ?_⟩
    intro member
    apply free
    apply (List.mem_erase_of_ne _).mpr member
    intro same
    rw [Prod.mk.injEq] at same
    exact other same
  have count := Finset.card_le_card fewer
  omega

theorem step_doomed {start : Signals H} {dispatches sends : Nat} {event : SignalEvent H}
    (doomed : Doomed start s t dispatches sends) (uncaught : Uncaught s)
    (guarded : Guarded s event) (step : SignalStep s event s') :
    Doomed start s' t (dispatches + event.dispatches t) (sends + event.sends t) := by
  obtain ⟨enabled, rfl⟩ := step
  cases event with
  | register number handler => exact doomed.of_same (signalRegister_frame number handler)
  | unregister number => exact doomed.of_same (signalUnregister_frame number)
  | send task number =>
      cases task with
      | none => exact doomed
      | some u => exact doomed.send u number
  | dispatch task =>
      cases task with
      | none => exact doomed
      | some u =>
      by_cases same : u = t
      · subst same
        simp only [SignalEvent.dispatches, SignalEvent.sends, Nat.add_zero, if_true]
        exact doomed.own guarded
      · simp only [SignalEvent.dispatches, SignalEvent.sends, Nat.add_zero, if_neg same]
        exact doomed.other (Ne.symm same)
  | handlerReturns u sig => exact doomed.returns uncaught (enabled u sig rfl)
  | setDefault number action => exact doomed.of_same (signalSetDefault_frame number action)
  | switchTo task =>
      exact doomed.of_same ⟨rfl, rfl, rfl⟩

/-! ## `SIG_KILL` is delivered -/

theorem run_doomed {events : List (SignalEvent H)} (uncaught : Uncaught s)
    (kill : s.Pending t sigKill) (run : Run (Restrict SignalStep Guarded) s events s') :
    Doomed s s' t (events.map (SignalEvent.dispatches t)).sum
      (events.map (SignalEvent.sends t)).sum := by
  induction run with
  | start =>
      refine ⟨[], (List.append_nil _).symm, .inr ⟨kill, ?_⟩⟩
      have fewer : waitingBelow s t ⊆ pendingBelow s t := Finset.filter_subset _ _
      have count := Finset.card_le_card fewer
      simpa using count
  | next earlier step ih =>
      have doomed := step_doomed ih (run_uncaught uncaught earlier) step.1 step.2
      simpa using doomed

/-- When every dispatch of a task for which `SIG_KILL` is pending is guarded, no handler of
`SIG_KILL` is ever called.  The task ends, or `SIG_KILL` stays pending and every dispatch
of the task has served a lower signal that was pending or has been sent since; and one
more dispatch ends the task or serves a lower signal, and ends no other task. -/
theorem kill_ends_task {events later : List (SignalEvent H)}
    (run : Run (Restrict SignalStep Guarded) bootSignals events s)
    (kill : s.Pending t sigKill) (more : Run (Restrict SignalStep Guarded) s later s') :
    (∀ call ∈ s'.called, call.2.1 ≠ sigKill) ∧
    (∃ ended, s'.exited = s.exited ++ ended ∧
      (t ∈ ended ∨ s'.Pending t sigKill ∧
        (later.map (SignalEvent.dispatches t)).sum ≤
          (pendingBelow s t).card + (later.map (SignalEvent.sends t)).sum)) ∧
    (s'.Pending t sigKill → Guarded s' (.dispatch (some t)) → Obeys s' t) := by
  have atBoot : Uncaught (bootSignals : Signals H) := ⟨nofun, nofun⟩
  have before := run_uncaught atBoot run
  have after := run_uncaught before more
  refine ⟨after.called, ?_, ?_⟩
  · obtain ⟨ended, exits, state⟩ := run_doomed before kill more
    refine ⟨ended, exits, ?_⟩
    apply state.imp_right
    intro waiting
    exact ⟨waiting.1, (Nat.le_add_right _ _).trans waiting.2⟩
  · intro pending guarded
    exact (obeys_iff_exposed pending).mpr (guarded pending).1

/-- A task that is sent an interrupt and `SIG_KILL`, and then dispatched, ends. -/
theorem kill_ends_task_interrupted :
    ∃ s s' : Signals Unit, s.Pending 1 sigKill ∧ s'.exited = [1] ∧
      ∀ call ∈ s'.called, call.2.1 ≠ sigKill := by
  have first : Run (Restrict SignalStep Guarded) (bootSignals : Signals Unit)
      [.switchTo (some 1), .send (some 1) 2, .send (some 1) 9]
      ((((bootSignals : Signals Unit).after (.switchTo (some 1))).after
        (.send (some 1) 2)).after (.send (some 1) 9)) :=
    ((Run.start.next ⟨trivial, nofun, rfl⟩).next ⟨trivial, nofun, rfl⟩).next
      ⟨trivial, nofun, rfl⟩
  generalize reached : (((bootSignals : Signals Unit).after (.switchTo (some 1))).after
    (.send (some 1) 2)).after (.send (some 1) 9) = s at first
  have kill : s.Pending 1 sigKill := by
    rw [← reached]
    decide
  have found : signalCheckPendingForTask s 1 = some sigIntsig := by
    rw [← reached]
    decide
  have guarded : Guarded s (.dispatch (some 1)) := by
    intro _
    subst reached
    refine ⟨⟨fun _ _ _ _ => rfl, fun _ => ⟨rfl, rfl⟩⟩, ?_⟩
    intro sig _
    exact List.not_mem_nil
  have second : Run (Restrict SignalStep Guarded) s [.dispatch (some 1)]
      (s.after (.dispatch (some 1))) := Run.start.next ⟨guarded, nofun, rfl⟩
  refine ⟨s, _, kill, ?_, (kill_ends_task first kill second).1⟩
  subst reached
  simp only [Signals.after, signalDispatch] at found ⊢
  rw [found]
  rfl

/-- A handler of `SIG_KILL` is called, and the task goes on. -/
theorem kill_caught :
    ∃ s : Signals Unit, Run SignalStep bootSignals
        [.switchTo (some 1), .register 9 (some ()), .send (some 1) 9] s ∧
      s.Pending 1 sigKill ∧ ¬ Obeys s 1 := by
  have run : Run SignalStep (bootSignals : Signals Unit)
      [.switchTo (some 1), .register 9 (some ()), .send (some 1) 9]
      ((((bootSignals : Signals Unit).after (.switchTo (some 1))).after
        (.register 9 (some ()))).after (.send (some 1) 9)) :=
    ((Run.start.next ⟨nofun, rfl⟩).next ⟨nofun, rfl⟩).next ⟨nofun, rfl⟩
  have kill : ((((bootSignals : Signals Unit).after (.switchTo (some 1))).after
      (.register 9 (some ()))).after (.send (some 1) 9)).Pending 1 sigKill := by decide
  refine ⟨_, run, kill, ?_⟩
  intro obeys
  have free := (((obeys_iff_exposed kill).mp obeys).fatal (by decide)).1
  exact absurd free (by decide)

end Charis.Sched
