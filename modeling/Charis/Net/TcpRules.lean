import Charis.Net.StackRules
import Charis.Net.Tcp

/-!
# Rules for the TCP client

What a received segment and a poll do is taken apart once.  A property of the world
that is kept by callbacks, by the end of a connection and by acknowledgements is kept
by `net_tcp_input` and `net_tcp_poll` if it is kept where they open a connection, count
payload or send something of their own.
-/

namespace Charis.Net

open Charis.Lib

variable {κ σ : Type}

theorem emitSegment_tcp (world : World κ σ) (kind : Sent → SegmentKind) (flags : BitVec 8)
    (sequence acknowledgement : BitVec 32) (payload : List UInt8) :
    (emitSegment world kind flags sequence acknowledgement payload).2.tcp =
      world.tcp.note
        ⟨kind (emitSegment world kind flags sequence acknowledgement payload).1, sequence,
          acknowledgement, payload,
          (emitSegment world kind flags sequence acknowledgement payload).1⟩ :=
  rfl

theorem emitSegment_rest (world : World κ σ) (kind : Sent → SegmentKind) (flags : BitVec 8)
    (sequence acknowledgement : BitVec 32) (payload : List UInt8) :
    (emitSegment world kind flags sequence acknowledgement payload).2.dns = world.dns ∧
      (emitSegment world kind flags sequence acknowledgement payload).2.user = world.user := by
  unfold emitSegment
  generalize netIpv4Send _ _ _ _ = sent
  exact ⟨rfl, rfl⟩

theorem emitSegment_stack (world : World κ σ) (kind : Sent → SegmentKind) (flags : BitVec 8)
    (sequence acknowledgement : BitVec 32) (payload : List UInt8) :
    ∃ bytes, (emitSegment world kind flags sequence acknowledgement payload).2.stack =
      (netIpv4Send world.stack world.tcp.remoteIp 6 bytes).2 := by
  unfold emitSegment
  generalize tcpSegment _ _ _ _ _ _ _ _ = bytes
  refine ⟨bytes, ?_⟩
  generalize netIpv4Send _ _ _ _ = sent
  rfl

/-- A property that callbacks, the end of a connection and acknowledgements keep. -/
structure Stable (callbacks : Callbacks κ σ) (inv : World κ σ → Prop) : Prop where
  connect : ∀ key connected world, inv world → inv (callbacks.tcpConnect key connected world)
  data : ∀ key bytes world, inv world → inv (callbacks.tcpData key bytes world)
  close : ∀ key clean world, inv world → inv (callbacks.tcpClose key clean world)
  clear : ∀ world, inv world → inv { world with tcp := clearConnection world.tcp }
  abort : ∀ world, inv world → inv (clearForClose world false)
  acknowledge : ∀ world, inv world → inv (emitAck world)

theorem Stable.and {callbacks : Callbacks κ σ} {inv inv' : World κ σ → Prop}
    (stable : Stable callbacks inv) (stable' : Stable callbacks inv') :
    Stable callbacks fun world => inv world ∧ inv' world where
  connect := fun key connected world both =>
    ⟨stable.connect key connected world both.1, stable'.connect key connected world both.2⟩
  data := fun key bytes world both =>
    ⟨stable.data key bytes world both.1, stable'.data key bytes world both.2⟩
  close := fun key clean world both =>
    ⟨stable.close key clean world both.1, stable'.close key clean world both.2⟩
  clear := fun world both => ⟨stable.clear world both.1, stable'.clear world both.2⟩
  abort := fun world both => ⟨stable.abort world both.1, stable'.abort world both.2⟩
  acknowledge := fun world both =>
    ⟨stable.acknowledge world both.1, stable'.acknowledge world both.2⟩

/-- A property that is kept where the segment makes a connection open, count payload or
end. -/
structure InputRules (callbacks : Callbacks κ σ) (world : World κ σ) (segment : Segment)
    (inv : World κ σ → Prop) : Prop where
  opened : segment.opens world.tcp = true → inv (openConnection world segment)
  first : segment.opens world.tcp = true → segment.payload ≠ [] → ∀ now, inv now →
    segment.sequence + 1 = now.tcp.remoteSeq → inv (countPayload now segment.payload)
  acknowledged : world.tcp.state ≠ .synSent → inv (acknowledgePayload world segment)
  counted : world.tcp.state ≠ .synSent → segment.payload ≠ [] →
    segment.sequence = world.tcp.remoteSeq →
    inv (countPayload (acknowledgePayload world segment) segment.payload)
  finished : world.tcp.state ≠ .synSent → segment.hasFin = true →
    inv (receivePayload callbacks (acknowledgePayload world segment) segment) →
    inv (inputFin callbacks (receivePayload callbacks (acknowledgePayload world segment) segment)
      segment)

@[simp]
theorem acknowledgePayload_remoteSeq (world : World κ σ) (segment : Segment) :
    (acknowledgePayload world segment).tcp.remoteSeq = world.tcp.remoteSeq := by
  unfold acknowledgePayload
  split <;> rfl

theorem countPayload_of_listening {world : World κ σ}
    (listening : world.tcp.dataCallback.isSome = true) (payload : List UInt8) :
    (countPayload world payload).tcp =
      { world.tcp with
        remoteSeq := world.tcp.remoteSeq + BitVec.ofNat 32 payload.length
        current := { world.tcp.current with
          delivered := world.tcp.current.delivered ++ payload } } := by
  unfold countPayload
  exact congrArg World.tcp (if_pos listening)

theorem countPayload_of_deaf {world : World κ σ}
    (deaf : ¬ world.tcp.dataCallback.isSome = true) (payload : List UInt8) :
    (countPayload world payload).tcp =
      { world.tcp with
        remoteSeq := world.tcp.remoteSeq + BitVec.ofNat 32 payload.length } := by
  unfold countPayload
  exact congrArg World.tcp (if_neg deaf)

theorem acceptSegment_alive {world : World κ σ} {src dst : Ipv4} {bytes : List UInt8}
    {segment : Segment} (accepted : acceptSegment world src dst bytes = some segment) :
    world.tcp.state ≠ .closed := by
  simp only [acceptSegment] at accepted
  split at accepted
  · cases accepted
  · next passed =>
      simp only [not_or] at passed
      exact passed.2.1

theorem callIf_keeps {inv : World κ σ → Prop} {call : κ → World κ σ → World κ σ}
    (keeps : ∀ key world, inv world → inv (call key world)) {world : World κ σ}
    (holds : inv world) (key : Option κ) : inv (callIf key call world) := by
  cases key with
  | none => exact holds
  | some key => exact keeps key world holds

theorem inputSynSent_of_not_opens {callbacks : Callbacks κ σ} {world : World κ σ}
    {segment : Segment} (opens : segment.opens world.tcp = false) :
    inputSynSent callbacks world segment = world := by
  simp [inputSynSent, opens]

namespace Stable

variable {callbacks : Callbacks κ σ} {inv : World κ σ → Prop} (stable : Stable callbacks inv)
  {world : World κ σ}

include stable

theorem abortConnection (holds : inv world) : inv (abortConnection callbacks world) := by
  simp only [Net.abortConnection]
  split
  · exact callIf_keeps (fun key => stable.connect key false) (stable.clear world holds) _
  · exact callIf_keeps (fun key => stable.close key false) (stable.abort world holds) _

theorem deliverPayload {payload : List UInt8} (counted : inv (countPayload world payload)) :
    inv (deliverPayload callbacks world payload) :=
  stable.acknowledge _ (callIf_keeps (fun key => stable.data key payload) counted _)

/-- The rule for a segment that opens the connection.  What holds before its payload is
counted may be more than what holds in the end. -/
theorem opening {before : World κ σ → Prop} (early : Stable callbacks before)
    {segment : Segment} (opens : segment.opens world.tcp = true)
    (opened : before (openConnection world segment))
    (first : segment.payload ≠ [] → ∀ now, before now →
      segment.sequence + 1 = now.tcp.remoteSeq → inv (countPayload now segment.payload))
    (enough : ∀ now, before now → inv now) :
    inv (inputSynSent callbacks world segment) := by
  have told := callIf_keeps (fun key => early.connect key true) opened
    world.tcp.connectCallback
  simp only [Net.inputSynSent, opens, Bool.not_true, Bool.false_eq_true, ↓reduceIte]
  split
  · next payload => exact stable.deliverPayload (first payload.1 _ told payload.2)
  · exact enough _ told

theorem receivePayload {segment : Segment} (connected : world.tcp.state ≠ .synSent)
    (rules : InputRules callbacks world segment inv) :
    inv (receivePayload callbacks (acknowledgePayload world segment) segment) := by
  simp only [Net.receivePayload, acknowledgePayload_remoteSeq]
  split
  · next payload => exact stable.deliverPayload (rules.counted connected payload.1 payload.2)
  · exact rules.acknowledged connected

theorem inputOpen {segment : Segment} (connected : world.tcp.state ≠ .synSent)
    (rules : InputRules callbacks world segment inv) :
    inv (inputOpen callbacks world segment) := by
  have received := stable.receivePayload connected rules
  simp only [Net.inputOpen]
  split
  · next fin => exact rules.finished connected fin received
  split
  · exact stable.clear _ received
  · exact received

theorem netTcpInput (holds : inv world) (src dst : Ipv4) (bytes : List UInt8)
    (rules : ∀ segment, acceptSegment world src dst bytes = some segment →
      segment.hasRst = false → InputRules callbacks world segment inv) :
    inv (netTcpInput callbacks world src dst bytes) := by
  simp only [Net.netTcpInput]
  split
  · exact holds
  next segment accepted =>
  split
  · exact stable.abortConnection holds
  next reset =>
  rw [Bool.not_eq_true] at reset
  split
  · cases opens : segment.opens world.tcp with
    | false =>
        rw [inputSynSent_of_not_opens opens]
        exact holds
    | true =>
        have rule := rules segment accepted reset
        exact stable.opening stable opens (rule.opened opens) (rule.first opens) fun _ => id
  · next connected => exact stable.inputOpen connected (rules segment accepted reset)

/-- The rule for the end of a connection by `FIN`. -/
theorem inputFin {segment : Segment}
    (finished : ∀ count, inv (clearForClose (emitAck (advanceRemote world count)) true)) :
    inv (inputFin callbacks world segment) :=
  callIf_keeps (fun key => stable.close key true) (finished _) _

theorem netTcpPoll (holds : inv world)
    (counters : ∀ now pollTicks retries, inv now →
      inv { now with tcp := { now.tcp with pollTicks, retries } })
    (transmitted : world.tcp.state ≠ .closed → ∀ pollTicks,
      inv { world with tcp := { world.tcp with pollTicks } } →
      inv (pollTransmit { world with tcp := { world.tcp with pollTicks } }).2) :
    inv (netTcpPoll callbacks world) := by
  simp only [Net.netTcpPoll]
  split
  · exact holds
  next alive =>
  rw [not_or] at alive
  split
  · exact counters world _ _ holds
  have reset := counters world 0 world.tcp.retries holds
  split
  · exact stable.abortConnection reset
  · have sent := transmitted alive.2 0 reset
    split
    · exact sent
    · exact counters _ _ _ sent

end Stable

theorem pollTransmit_keeps {inv : World κ σ → Prop} {world : World κ σ} (holds : inv world)
    (syn : world.tcp.state = .synSent → inv (pollSyn world).2)
    (payload : world.tcp.state ≠ .synSent → world.tcp.txPending = true →
      inv (pollPayload world).2)
    (fin : world.tcp.state = .finWait → world.tcp.txPending = false →
      inv (emitSegment world (fun _ => .fin) 0x11 (world.tcp.localSeq - 1)
        world.tcp.remoteSeq []).2) :
    inv (pollTransmit world).2 := by
  simp only [pollTransmit]
  split
  · next connecting => exact syn connecting
  next connected =>
  split
  · next pending => exact payload connected pending
  next idle =>
  split
  · next waiting => exact fin waiting (by simpa using idle)
  · exact holds

/-- What can happen to the TCP client, in any order.  Whatever else the kernel does in
between leaves the client alone. -/
inductive TcpEvent (κ σ : Type) where
  | init
  | connect (ip : Ipv4) (port : BitVec 16) (key : κ) (onData onClose : Option κ)
  | send (data : List UInt8)
  | close
  | poll
  | input (src dst : Ipv4) (bytes : List UInt8)
  | other (stack : Stack) (dns : Dns κ) (user : σ)

/-- The effect of an event. -/
def tcpAfter (callbacks : Callbacks κ σ) (world : World κ σ) : TcpEvent κ σ → World κ σ
  | .init => netTcpInit world
  | .connect ip port key onData onClose => (netTcpConnect world ip port key onData onClose).2
  | .send data => (netTcpSend world data).2
  | .close => netTcpClose world
  | .poll => netTcpPoll callbacks world
  | .input src dst bytes => netTcpInput callbacks world src dst bytes
  | .other stack dns user => { world with stack, dns, user }

def TcpStep (callbacks : Callbacks κ σ) (world : World κ σ) (event : TcpEvent κ σ)
    (world' : World κ σ) : Prop :=
  world' = tcpAfter callbacks world event

/-- The worlds of a run, one event after the other. -/
def tcpFinish (callbacks : Callbacks κ σ) (start : World κ σ)
    (events : List (TcpEvent κ σ)) : World κ σ :=
  events.foldl (tcpAfter callbacks) start

theorem tcpFinish_append (callbacks : Callbacks κ σ) (start : World κ σ)
    (front back : List (TcpEvent κ σ)) :
    tcpFinish callbacks start (front ++ back) =
      tcpFinish callbacks (tcpFinish callbacks start front) back :=
  List.foldl_append

/-- The run of a list of events that all meet a condition when they happen. -/
theorem run_tcpFinish_of {callbacks : Callbacks κ σ}
    {condition : World κ σ → TcpEvent κ σ → Prop} {start : World κ σ}
    {events : List (TcpEvent κ σ)}
    (meets : ∀ front event back, events = front ++ event :: back →
      condition (tcpFinish callbacks start front) event) :
    Run (fun world event world' => TcpStep callbacks world event world' ∧
      condition world event) start events (tcpFinish callbacks start events) := by
  induction events using List.reverseRecOn with
  | nil => exact .start
  | append_singleton events event ih =>
      rw [tcpFinish, List.foldl_append]
      refine (ih fun front middle back split => ?_).next
        ⟨rfl, meets events event [] rfl⟩
      exact meets front middle (back ++ [event]) (by simp [split])

theorem run_tcpFinish (callbacks : Callbacks κ σ) (start : World κ σ)
    (events : List (TcpEvent κ σ)) :
    Run (TcpStep callbacks) start events (tcpFinish callbacks start events) := by
  induction events using List.reverseRecOn with
  | nil => exact .start
  | append_singleton events event ih =>
      rw [tcpFinish, List.foldl_append]
      exact ih.next rfl

/-- What the user of a connection can do in its callbacks: send, close and whatever does
not concern the TCP client. -/
inductive SessionCalls (world : World κ σ) : World κ σ → Prop
  | refl : SessionCalls world world
  | send {middle : World κ σ} (data : List UInt8) :
      SessionCalls world middle → SessionCalls world (netTcpSend middle data).2
  | close {middle : World κ σ} :
      SessionCalls world middle → SessionCalls world (netTcpClose middle)
  | other {middle : World κ σ} (stack : Stack) (dns : Dns κ) (user : σ) :
      SessionCalls world middle → SessionCalls world { middle with stack, dns, user }

/-- The callbacks of a connection do not open another one. -/
structure Callbacks.WithinSession (callbacks : Callbacks κ σ) : Prop where
  connect : ∀ key connected world,
    SessionCalls world (callbacks.tcpConnect key connected world)
  data : ∀ key bytes world, SessionCalls world (callbacks.tcpData key bytes world)
  close : ∀ key clean world, SessionCalls world (callbacks.tcpClose key clean world)

theorem idleCallbacks_withinSession : idleCallbacks.WithinSession :=
  ⟨fun _ _ _ => .refl, fun _ _ _ => .refl, fun _ _ _ => .refl⟩

theorem SessionCalls.keeps {inv : World κ σ → Prop} {world world' : World κ σ}
    (calls : SessionCalls world world') (holds : inv world)
    (send : ∀ now data, inv now → inv (netTcpSend now data).2)
    (close : ∀ now, inv now → inv (netTcpClose now))
    (other : ∀ now stack dns user, inv now → inv { now with stack, dns, user }) :
    inv world' := by
  induction calls with
  | refl => exact holds
  | send data _ ih => exact send _ data ih
  | close _ ih => exact close _ ih
  | other stack dns user _ ih => exact other _ stack dns user ih

/-- Bytes of the pending payload that `local_seq` does not count yet. -/
def Tcp.unsent (tcp : Tcp κ) : Nat :=
  if tcp.txPending && !tcp.txTransmitted then tcp.txPayload.length else 0

/-- Connect, send the `SYN` and receive the answer. -/
def greetingEvents : List (TcpEvent Unit Unit) :=
  [.connect 0x0A000202 80 () (some ()) (some ()), .poll,
    .input 0x0A000202 0x0A00020F
      (tcpSegment 0x0A000202 0x0A00020F 80 49152 0x12 1000 (initialSequence 49152 80 + 1) [])]

end Charis.Net
