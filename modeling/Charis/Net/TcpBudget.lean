import Charis.Net.TcpSequence

/-!
# The retry budget

`net_tcp_poll` charges the retry budget at the end of every interval, also when there
is nothing to send again.  A connection that waits for its peer is therefore given up
after a few intervals, in the middle of a download or before the first byte of an
answer.
-/

namespace Charis.Net

open Charis.Lib

variable {κ σ : Type}

/-- An open connection without unacknowledged data. -/
def Tcp.Idle (tcp : Tcp κ) : Prop := tcp.state = .established ∧ tcp.txPending = false

/-- The next poll neither ends an interval nor finds the budget used up. -/
def Tcp.Affords (tcp : Tcp κ) : Prop :=
  tcp.pollTicks + 1 < tcpPollInterval ∨ tcp.retries < tcpMaxRetries

/-- The polls that ticks and retries stand for. -/
def Tcp.spent (tcp : Tcp κ) : Nat := tcp.retries * tcpPollInterval + tcp.pollTicks

/-- Polls since `net_tcp_connect` or `net_tcp_send` has last renewed the budget. -/
def countPolls (world : World κ σ) (count : Nat) : TcpEvent κ σ → Nat
  | .poll => count + 1
  | .connect ip port key onData onClose =>
      if (netTcpConnect world ip port key onData onClose).1 then 0 else count
  | .send data =>
      if world.tcp.state = .established ∧ 0 < data.length ∧ data.length ≤ tcpSegmentCap ∧
          world.tcp.txPending = false then 0
      else count
  | _ => count

/-- Steps with the count of polls. -/
def CountedStep (callbacks : Callbacks κ σ) (before : World κ σ × Nat) (event : TcpEvent κ σ)
    (after : World κ σ × Nat) : Prop :=
  TcpStep callbacks before.1 event after.1 ∧ after.2 = countPolls before.1 before.2 event

theorem interval_pos : 0 < tcpPollInterval := by decide

theorem lastTick : tcpPollInterval - 1 < tcpPollInterval := by decide

/-- The budget is not charged faster than polls happen. -/
structure Budgeted (count : Nat) (tcp : Tcp κ) : Prop where
  spent : tcp.spent < tcpPollInterval + count
  ticks : tcp.pollTicks < tcpPollInterval
  ready : tcp.initialized = false → tcp.state = .closed

namespace Budgeted

variable {count : Nat} {tcp tcp' : Tcp κ}

theorem fresh : Budgeted 0 (Tcp.initial : Tcp κ) := by
  exact ⟨by simp [Tcp.spent, Tcp.initial], by simp [Tcp.initial], fun _ => rfl⟩

theorem renewed (ticks : tcp.pollTicks < tcpPollInterval) (retries : tcp.retries = 0)
    (ready : tcp.initialized = false → tcp.state = .closed) : Budgeted count tcp where
  spent := by
    simp only [Tcp.spent, retries]
    omega
  ticks := ticks
  ready := ready

variable (budgeted : Budgeted count tcp)

include budgeted

theorem congr (retries : tcp'.retries = tcp.retries) (ticks : tcp'.pollTicks = tcp.pollTicks)
    (ready : tcp'.initialized = false → tcp'.state = .closed) : Budgeted count tcp' where
  spent := by
    simp only [Tcp.spent, retries, ticks]
    exact budgeted.spent
  ticks := ticks ▸ budgeted.ticks
  ready := ready

theorem clear : Budgeted count (clearConnection tcp) := budgeted.congr rfl rfl fun _ => rfl

/-- As long as the count is small, the budget is not used up. -/
theorem affords (few : count < tcpMaxRetries * tcpPollInterval) : tcp.Affords := by
  have spent := budgeted.spent
  simp only [Tcp.spent, tcpPollInterval, tcpMaxRetries] at spent few
  simp only [Tcp.Affords, tcpPollInterval, tcpMaxRetries]
  omega

end Budgeted

section Calls

variable {count : Nat} {world : World κ σ}

theorem netTcpInit_budgeted (budgeted : Budgeted count world.tcp) :
    Budgeted count (netTcpInit world).tcp := by
  unfold netTcpInit
  split
  · exact budgeted
  · exact budgeted.congr rfl rfl fun _ => rfl

theorem netTcpConnect_budgeted (budgeted : Budgeted count world.tcp) (ip : Ipv4)
    (port : BitVec 16) (key : κ) (onData onClose : Option κ) :
    Budgeted (if (netTcpConnect world ip port key onData onClose).1 then 0 else count)
      (netTcpConnect world ip port key onData onClose).2.tcp := by
  have initialized : (netTcpInit world).tcp.initialized = true := by
    unfold netTcpInit
    split
    · assumption
    · rfl
  simp only [netTcpConnect]
  split
  · exact netTcpInit_budgeted budgeted
  split
  · exact netTcpInit_budgeted budgeted
  · refine .renewed lastTick rfl fun unready => ?_
    rw [show (netTcpInit world).tcp.initialized = false from unready] at initialized
    cases initialized

theorem netTcpSend_budgeted (budgeted : Budgeted count world.tcp) (data : List UInt8) :
    Budgeted (countPolls world count (.send data)) (netTcpSend world data).2.tcp := by
  by_cases taken : world.tcp.state = .established ∧ 0 < data.length ∧
      data.length ≤ tcpSegmentCap ∧ world.tcp.txPending = false
  · have allowed : ¬ (world.tcp.state ≠ .established ∨ data.length = 0 ∨
        data.length > tcpSegmentCap) := by
      rintro (closed | empty | large)
      · exact closed taken.1
      · exact Nat.lt_irrefl _ (empty ▸ taken.2.1)
      · exact absurd taken.2.2.1 (Nat.not_le.mpr large)
    simp only [netTcpSend, countPolls, if_neg allowed, taken.2.2.2, Bool.false_eq_true,
      ↓reduceIte, emitSegment_tcp]
    generalize (emitSegment _ _ _ _ _ _).1 = result
    cases result <;> exact .renewed lastTick rfl budgeted.ready
  · simp only [netTcpSend, countPolls, if_neg taken]
    split
    · exact budgeted
    next allowed =>
    split
    · exact budgeted
    · next idle =>
        simp only [not_or, not_not, Nat.not_lt] at allowed
        exact absurd ⟨allowed.1, Nat.pos_of_ne_zero allowed.2.1, allowed.2.2, by simpa using idle⟩
          taken

theorem netTcpClose_budgeted (budgeted : Budgeted count world.tcp) :
    Budgeted count (netTcpClose world).tcp := by
  simp only [netTcpClose]
  split
  case isFalse => exact budgeted.clear
  case isTrue opened =>
  generalize emitted : emitSegment _ _ _ _ _ _ = sent
  have record : sent.2.tcp = world.tcp.note
      ⟨.fin, world.tcp.localSeq, world.tcp.remoteSeq, [], sent.1⟩ := by
    rw [← emitted, emitSegment_tcp]
  split
  · refine .renewed interval_pos rfl fun unready => ?_
    have ready := budgeted.ready (by simpa [record, Tcp.note] using unready)
    rw [opened] at ready
    cases ready
  · rw [record]
    exact budgeted.congr rfl rfl fun _ => rfl

end Calls

section Events

variable {count : Nat} {callbacks : Callbacks κ σ} (through : callbacks.ThroughApi)
  {world : World κ σ}

theorem Budgeted.mono {tcp : Tcp κ} {less : Nat} (budgeted : Budgeted less tcp)
    (le : less ≤ count) : Budgeted count tcp where
  spent := by
    have := budgeted.spent
    omega
  ticks := budgeted.ticks
  ready := budgeted.ready

theorem ApiCalls.budgeted {world' : World κ σ} (calls : ApiCalls world world')
    (budgeted : Budgeted count world.tcp) : Budgeted count world'.tcp := by
  induction calls with
  | refl => exact budgeted
  | connect ip port key onData onClose _ ih =>
      refine (netTcpConnect_budgeted ih ip port key onData onClose).mono ?_
      split <;> omega
  | send data _ ih =>
      refine (netTcpSend_budgeted ih data).mono ?_
      simp only [countPolls]
      split <;> omega
  | close _ ih => exact netTcpClose_budgeted ih
  | other stack dns user _ ih => exact ih

theorem emitSegment_budgeted (budgeted : Budgeted count world.tcp) (kind : Sent → SegmentKind)
    (flags : BitVec 8) (sequence acknowledgement : BitVec 32) (payload : List UInt8) :
    Budgeted count (emitSegment world kind flags sequence acknowledgement payload).2.tcp := by
  rw [emitSegment_tcp]
  exact budgeted.congr rfl rfl budgeted.ready

theorem advanceRemote_budgeted (budgeted : Budgeted count world.tcp) (bytes : BitVec 32) :
    Budgeted count (advanceRemote world bytes).tcp :=
  budgeted.congr rfl rfl budgeted.ready

theorem countPayload_budgeted (budgeted : Budgeted count world.tcp) (payload : List UInt8) :
    Budgeted count (countPayload world payload).tcp := by
  simp only [countPayload]
  split <;> exact budgeted.congr rfl rfl budgeted.ready

theorem clearForClose_budgeted (budgeted : Budgeted count world.tcp) (clean : Bool) :
    Budgeted count (clearForClose world clean).tcp := by
  simp only [clearForClose, Tcp.noteClose]
  split <;> exact budgeted.congr rfl rfl fun _ => rfl

include through

theorem stable_budgeted (count : Nat) :
    Stable callbacks fun now => Budgeted count now.tcp where
  connect := fun key connected now => (through.connect key connected now).budgeted
  data := fun key bytes now => (through.data key bytes now).budgeted
  close := fun key clean now => (through.close key clean now).budgeted
  clear := fun _ budgeted => budgeted.clear
  abort := fun _ budgeted => clearForClose_budgeted budgeted false
  acknowledge := fun _ budgeted => emitSegment_budgeted budgeted _ _ _ _ _

theorem netTcpInput_budgeted (budgeted : Budgeted count world.tcp) (src dst : Ipv4)
    (bytes : List UInt8) : Budgeted count (netTcpInput callbacks world src dst bytes).tcp := by
  have stable := stable_budgeted through count
  refine stable.netTcpInput budgeted src dst bytes fun segment accepted _ => ?_
  have acknowledged : Budgeted count (acknowledgePayload world segment).tcp := by
    simp only [acknowledgePayload]
    split
    · exact budgeted.congr rfl rfl budgeted.ready
    · exact budgeted
  exact {
    opened := fun opens => by
      simp only [openConnection, emitSegment_tcp]
      refine budgeted.congr rfl rfl fun unready => ?_
      have closed := budgeted.ready unready
      simp [Segment.opens, closed] at opens
    first := fun _ _ _ before _ => countPayload_budgeted before _
    acknowledged := fun _ => acknowledged
    counted := fun _ _ _ => countPayload_budgeted acknowledged _
    finished := fun _ _ before => stable.inputFin fun _ =>
      clearForClose_budgeted (stable.acknowledge _ (advanceRemote_budgeted before _)) true }

omit through in
theorem pollTransmit_counters (world : World κ σ) :
    (pollTransmit world).2.tcp.retries = world.tcp.retries ∧
      (pollTransmit world).2.tcp.pollTicks = world.tcp.pollTicks ∧
      (pollTransmit world).2.tcp.initialized = world.tcp.initialized ∧
      (pollTransmit world).2.tcp.state = world.tcp.state := by
  refine @pollTransmit_keeps _ _ (fun now => now.tcp.retries = world.tcp.retries ∧
    now.tcp.pollTicks = world.tcp.pollTicks ∧ now.tcp.initialized = world.tcp.initialized ∧
    now.tcp.state = world.tcp.state) world ⟨rfl, rfl, rfl, rfl⟩ (fun _ => ?_) (fun _ _ => ?_)
    (fun _ _ => ?_)
  · simp only [pollSyn]
    generalize emitted : emitSegment _ _ _ _ _ _ = outcome
    have noted := emitted ▸ emitSegment_tcp world (fun _ => .syn) 0x02 world.tcp.initialSeq 0 []
    split <;> rw [noted] <;> exact ⟨rfl, rfl, rfl, rfl⟩
  · simp only [pollPayload]
    generalize emitted : emitSegment _ _ _ _ _ _ = outcome
    have noted := emitted ▸ emitSegment_tcp world
      (fun _ => .payload (world.tcp.current.accepted.length - world.tcp.txPayload.length)) 0x18
      world.tcp.txSequence world.tcp.remoteSeq world.tcp.txPayload
    split <;> rw [noted] <;> exact ⟨rfl, rfl, rfl, rfl⟩
  · rw [emitSegment_tcp]
    exact ⟨rfl, rfl, rfl, rfl⟩

theorem netTcpPoll_budgeted (budgeted : Budgeted count world.tcp) :
    Budgeted (count + 1) (netTcpPoll callbacks world).tcp := by
  have spent := budgeted.spent
  have ticks := budgeted.ticks
  simp only [netTcpPoll]
  split
  · exact budgeted.mono (Nat.le_succ _)
  split
  · next early =>
      exact {
        spent := by
          simp only [Tcp.spent, tcpPollInterval] at spent ⊢
          omega
        ticks := early
        ready := budgeted.ready }
  next due =>
  have reset : Budgeted count { world.tcp with pollTicks := 0 } := {
    spent := Nat.lt_of_le_of_lt (Nat.add_le_add_left (Nat.zero_le _) _) spent
    ticks := interval_pos
    ready := budgeted.ready }
  split
  · have aborted : Budgeted count (abortConnection callbacks
        { world with tcp := { world.tcp with pollTicks := 0 } }).tcp :=
      (stable_budgeted through count).abortConnection reset
    exact aborted.mono (Nat.le_succ _)
  have counters := pollTransmit_counters { world with tcp := { world.tcp with pollTicks := 0 } }
  generalize pollTransmit _ = sent at counters ⊢
  have ready : sent.2.tcp.initialized = false → sent.2.tcp.state = .closed := by
    rw [counters.2.2.1, counters.2.2.2]
    exact budgeted.ready
  split
  · exact (reset.congr counters.1 counters.2.1 ready).mono (Nat.le_succ _)
  exact {
    spent := by
      have last : world.tcp.pollTicks + 1 = tcpPollInterval :=
        Nat.le_antisymm ticks (Nat.not_lt.mp due)
      simp only [Tcp.spent, counters.1, counters.2.1, Nat.succ_mul, Nat.add_zero]
      calc world.tcp.retries * tcpPollInterval + tcpPollInterval
          = world.tcp.spent + 1 := by rw [← last, Tcp.spent, ← last, Nat.add_assoc]
        _ < tcpPollInterval + (count + 1) := Nat.succ_lt_succ spent
    ticks := by
      simp only [counters.2.1]
      exact interval_pos
    ready := ready }

theorem tcpAfter_budgeted (budgeted : Budgeted count world.tcp) (event : TcpEvent κ σ) :
    Budgeted (countPolls world count event) (tcpAfter callbacks world event).tcp := by
  cases event with
  | init => exact netTcpInit_budgeted budgeted
  | connect ip port key onData onClose =>
      exact netTcpConnect_budgeted budgeted ip port key onData onClose
  | send data => exact netTcpSend_budgeted budgeted data
  | close => exact netTcpClose_budgeted budgeted
  | poll => exact netTcpPoll_budgeted through budgeted
  | input src dst bytes => exact netTcpInput_budgeted through budgeted src dst bytes
  | other stack dns user => exact budgeted

/-- In every run the budget is charged no faster than polls happen. -/
theorem run_budgeted {start finish : World κ σ × Nat} {events : List (TcpEvent κ σ)}
    (fresh : start.1.tcp = Tcp.initial)
    (run : Run (CountedStep callbacks) start events finish) :
    Budgeted finish.2 finish.1.tcp := by
  refine @Run.invariant _ _ _ _ _ _ (fun now : World κ σ × Nat => Budgeted now.2 now.1.tcp)
    (fun _ => True) ?_ run ?_ (fun _ _ => trivial)
  · rintro ⟨world, count⟩ event ⟨world', count'⟩ budgeted - ⟨step, counted⟩
    simp only [TcpStep] at step counted
    subst step counted
    exact tcpAfter_budgeted through budgeted event
  · rw [fresh]
    exact Budgeted.fresh.mono (Nat.zero_le _)

end Events

/-! ## Idle connections -/

section Idle

variable {callbacks : Callbacks κ σ} {world : World κ σ}

theorem netTcpPoll_early (ready : world.tcp.initialized = true) (idle : world.tcp.Idle)
    (early : world.tcp.pollTicks + 1 < tcpPollInterval) :
    netTcpPoll callbacks world =
      { world with tcp := { world.tcp with pollTicks := world.tcp.pollTicks + 1 } } := by
  simp only [netTcpPoll, ready, idle.1, Bool.not_true, Bool.false_eq_true, reduceCtorEq, or_self,
    ↓reduceIte, if_pos early]

/-- The end of an interval is charged although nothing was sent. -/
theorem netTcpPoll_charged (ready : world.tcp.initialized = true) (idle : world.tcp.Idle)
    (due : ¬ world.tcp.pollTicks + 1 < tcpPollInterval)
    (left : world.tcp.retries < tcpMaxRetries) :
    netTcpPoll callbacks world =
      { world with
        tcp := { world.tcp with pollTicks := 0, retries := world.tcp.retries + 1 } } := by
  simp only [netTcpPoll, ready, idle.1, Bool.not_true, Bool.false_eq_true, reduceCtorEq, or_self,
    ↓reduceIte, if_neg due, if_neg (Nat.not_le.mpr left), pollTransmit, idle.2]

theorem netTcpPoll_aborts (ready : world.tcp.initialized = true) (idle : world.tcp.Idle)
    (due : ¬ world.tcp.pollTicks + 1 < tcpPollInterval)
    (used : ¬ world.tcp.retries < tcpMaxRetries) :
    netTcpPoll callbacks world =
      abortConnection callbacks { world with tcp := { world.tcp with pollTicks := 0 } } := by
  simp only [netTcpPoll, ready, idle.1, Bool.not_true, Bool.false_eq_true, reduceCtorEq, or_self,
    ↓reduceIte, if_neg due, if_pos (Nat.not_lt.mp used)]

/-- No call opens a connection completely. -/
theorem ApiCalls.not_established {world' : World κ σ} (calls : ApiCalls world world')
    (closed : world.tcp.state = .closed ∨ world.tcp.state = .synSent) :
    world'.tcp.state = .closed ∨ world'.tcp.state = .synSent := by
  induction calls with
  | refl => exact closed
  | connect ip port key onData onClose _ ih =>
      have ready : ∀ now : World κ σ, now.tcp.state = .closed ∨ now.tcp.state = .synSent →
          (netTcpInit now).tcp.state = .closed ∨ (netTcpInit now).tcp.state = .synSent := by
        intro now holds
        unfold netTcpInit
        split
        · exact holds
        · exact .inl rfl
      simp only [netTcpConnect]
      split
      · exact ready _ ih
      split
      · exact ready _ ih
      · exact .inr rfl
  | send data _ ih =>
      simp only [netTcpSend]
      split
      · exact ih
      · next allowed =>
          simp only [not_or, not_not] at allowed
          rw [allowed.1] at ih
          rcases ih with state | state <;> cases state
  | close _ ih =>
      simp only [netTcpClose]
      split
      · next opened =>
          rw [opened] at ih
          rcases ih with state | state <;> cases state
      · exact .inl rfl
  | other stack dns user _ ih => exact ih

theorem abortConnection_not_established (through : callbacks.ThroughApi)
    (world : World κ σ) : (abortConnection callbacks world).tcp.state ≠ .established := by
  let Down (now : World κ σ) : Prop := now.tcp.state = .closed ∨ now.tcp.state = .synSent
  have after (now : World κ σ) (down : Down now) : now.tcp.state ≠ .established := by
    rcases down with state | state <;> simp [state]
  have called (call : κ → World κ σ → World κ σ) (key : Option κ) (now : World κ σ)
      (down : Down now) (keeps : ∀ key now, Down now → Down (call key now)) :
      Down (callIf key call now) := callIf_keeps keeps down key
  simp only [abortConnection]
  split
  · refine after _ (called _ _ _ (.inl rfl) fun key now => ?_)
    exact (through.connect key false now).not_established
  · refine after _ (called _ _ _ (.inl rfl) fun key now => ?_)
    exact (through.close key false now).not_established

/-- Whether a poll keeps an idle connection, and whether it leaves the budget alone. -/
theorem netTcpPoll_idle_iff (through : callbacks.ThroughApi)
    (ready : world.tcp.initialized = true) (idle : world.tcp.Idle) :
    ((netTcpPoll callbacks world).tcp.state = .established ↔ world.tcp.Affords) ∧
      ((netTcpPoll callbacks world).tcp.state = .established ∧
        (netTcpPoll callbacks world).tcp.retries = world.tcp.retries ↔
          world.tcp.pollTicks + 1 < tcpPollInterval) := by
  by_cases early : world.tcp.pollTicks + 1 < tcpPollInterval
  · rw [netTcpPoll_early ready idle early]
    exact ⟨⟨fun _ => .inl early, fun _ => idle.1⟩, fun _ => early, fun _ => ⟨idle.1, rfl⟩⟩
  by_cases left : world.tcp.retries < tcpMaxRetries
  · rw [netTcpPoll_charged ready idle early left]
    refine ⟨⟨fun _ => .inr left, fun _ => idle.1⟩, fun same => ?_, fun soon => absurd soon early⟩
    exact absurd same.2 (Nat.succ_ne_self _)
  · rw [netTcpPoll_aborts ready idle early left]
    have aborted := abortConnection_not_established through
      { world with tcp := { world.tcp with pollTicks := 0 } }
    exact ⟨⟨fun kept => absurd kept aborted, fun affords => absurd affords (not_or.mpr
      ⟨early, left⟩)⟩, fun kept => absurd kept.1 aborted, fun soon => absurd soon early⟩

/-- In every run: a poll keeps an idle connection exactly when it does not end an interval
with the budget used up, which takes five intervals of polls, and it leaves the budget
alone exactly when it does not end an interval. -/
theorem tcp_idle_poll_iff (through : callbacks.ThroughApi) {start finish : World κ σ × Nat}
    {events : List (TcpEvent κ σ)} (fresh : start.1.tcp = Tcp.initial)
    (run : Run (CountedStep callbacks) start events finish) (idle : finish.1.tcp.Idle) :
    ((netTcpPoll callbacks finish.1).tcp.state = .established ↔ finish.1.tcp.Affords) ∧
      (finish.2 < tcpMaxRetries * tcpPollInterval → finish.1.tcp.Affords) ∧
      ((netTcpPoll callbacks finish.1).tcp.state = .established ∧
        (netTcpPoll callbacks finish.1).tcp.retries = finish.1.tcp.retries ↔
          finish.1.tcp.pollTicks + 1 < tcpPollInterval) := by
  have budgeted := run_budgeted through fresh run
  have ready : finish.1.tcp.initialized = true := by
    by_contra unready
    have closed := budgeted.ready (by simpa using unready)
    rw [idle.1] at closed
    cases closed
  have poll := @netTcpPoll_idle_iff _ _ callbacks _ through ready idle
  exact ⟨poll.1, budgeted.affords, poll.2⟩

/-- An open connection that has waited for some polls. -/
structure Waiting (spent : Nat) (tcp : Tcp κ) : Prop where
  ready : tcp.initialized = true
  idle : tcp.Idle
  ticks : tcp.pollTicks < tcpPollInterval
  spent : tcp.spent = spent

theorem Waiting.poll {spent : Nat} (waiting : Waiting spent world.tcp)
    (room : spent + 1 < (tcpMaxRetries + 1) * tcpPollInterval) :
    Waiting (spent + 1) (netTcpPoll callbacks world).tcp := by
  have ticks := waiting.ticks
  have total := waiting.spent
  by_cases early : world.tcp.pollTicks + 1 < tcpPollInterval
  · rw [netTcpPoll_early waiting.ready waiting.idle early]
    refine ⟨waiting.ready, waiting.idle, early, ?_⟩
    rw [← total, Tcp.spent, Tcp.spent, Nat.add_assoc]
  · have last : world.tcp.pollTicks + 1 = tcpPollInterval :=
      Nat.le_antisymm ticks (Nat.not_lt.mp early)
    have next : (world.tcp.retries + 1) * tcpPollInterval = spent + 1 := by
      rw [← total, Tcp.spent, Nat.succ_mul, Nat.add_assoc, last]
    have left : world.tcp.retries < tcpMaxRetries := by
      rw [← next] at room
      exact Nat.succ_lt_succ_iff.mp (Nat.lt_of_mul_lt_mul_right room)
    rw [netTcpPoll_charged waiting.ready waiting.idle early left]
    refine ⟨waiting.ready, waiting.idle, interval_pos, ?_⟩
    rw [← next, Tcp.spent, Nat.add_zero]

theorem Waiting.polls {spent : Nat} (waiting : Waiting spent world.tcp) {count : Nat}
    (room : spent + count < (tcpMaxRetries + 1) * tcpPollInterval) :
    Waiting (spent + count)
      (tcpFinish callbacks world (List.replicate count .poll)).tcp := by
  induction count with
  | zero => exact waiting
  | succ count ih =>
      rw [List.replicate_succ', tcpFinish, List.foldl_append]
      exact (ih (by omega)).poll room

/-- The budget of a connection that has waited long enough is used up. -/
theorem Waiting.not_affords {tcp : Tcp κ}
    (waiting : Waiting ((tcpMaxRetries + 1) * tcpPollInterval - 1) tcp) : ¬ tcp.Affords := by
  have ticks := waiting.ticks
  have total := waiting.spent
  simp only [Tcp.spent, tcpMaxRetries, tcpPollInterval] at ticks total
  simp only [Tcp.Affords, tcpMaxRetries, tcpPollInterval]
  omega

end Idle

theorem connect_waiting :
    Waiting 4096 (tcpFinish idleCallbacks neighbourWorld greetingEvents).tcp := by
  refine ⟨?_, ⟨?_, ?_⟩, ?_, ?_⟩
  all_goals decide +kernel

/-- The server takes its time, and the connection is given up. -/
theorem tcp_idle_poll_aborts :
    ∃ waiting, Run (TcpStep idleCallbacks) neighbourWorld
        (greetingEvents ++ List.replicate 20479 .poll) waiting ∧ waiting.tcp.Idle ∧
      (netTcpPoll idleCallbacks waiting).tcp.state ≠ .established := by
  have waiting := @Waiting.polls _ _ idleCallbacks _ _ connect_waiting 20479 (by decide)
  rw [show 4096 + 20479 = (tcpMaxRetries + 1) * tcpPollInterval - 1 by decide] at waiting
  refine ⟨_, run_tcpFinish _ _ _, ?_⟩
  rw [tcpFinish_append]
  refine ⟨waiting.idle, fun kept => ?_⟩
  have affords := (netTcpPoll_idle_iff idleCallbacks_throughApi waiting.ready
    waiting.idle).1.mp kept
  exact waiting.not_affords affords

theorem exists_countedRun {callbacks : Callbacks κ σ} {start finish : World κ σ}
    {events : List (TcpEvent κ σ)} (run : Run (TcpStep callbacks) start events finish) :
    ∃ count, Run (CountedStep callbacks) (start, 0) events (finish, count) := by
  induction run with
  | start => exact ⟨0, .start⟩
  | @next events middle finish event _ step ih =>
      obtain ⟨count, run⟩ := ih
      exact ⟨countPolls middle count event, run.next ⟨step, rfl⟩⟩

/-- The general statement right after the handshake. -/
theorem tcp_idle_poll_iff_connected :
    (tcpFinish idleCallbacks neighbourWorld greetingEvents).tcp.Idle ∧
      (netTcpPoll idleCallbacks
        (tcpFinish idleCallbacks neighbourWorld greetingEvents)).tcp.state = .established := by
  have waiting := connect_waiting
  have run := run_tcpFinish idleCallbacks neighbourWorld greetingEvents
  have early : (tcpFinish idleCallbacks neighbourWorld greetingEvents).tcp.pollTicks + 1 <
      tcpPollInterval := by
    decide +kernel
  generalize tcpFinish idleCallbacks neighbourWorld greetingEvents = world
    at waiting run early ⊢
  obtain ⟨count, counted⟩ := exists_countedRun run
  have poll := tcp_idle_poll_iff idleCallbacks_throughApi rfl counted waiting.idle
  exact ⟨waiting.idle, poll.1.mpr (.inl early)⟩

end Charis.Net
