import Charis.Net.TcpSequence
import Charis.Net.TcpClose

/-!
# Acknowledged numbers

An acknowledgement is to count when it names the end of what was transmitted.
`local_seq` is that end whenever payload or `FIN` is outstanding.  The client accepts
every number that is not below `local_seq` as an unsigned number: the right one always
counts, and so does each larger one, although it names data that was never sent, or data
from before the numbers went round.
-/

namespace Charis.Net

open Charis.Lib

variable {κ σ : Type}

/-- The later one of two numbers that are less than half a round apart. -/
def later (reached stop : BitVec 32) : BitVec 32 :=
  if (stop - reached).toNat < 2 ^ 31 then stop else reached

theorem later_add (reached : BitVec 32) {count : Nat} (few : count < 2 ^ 31) :
    later reached (reached + BitVec.ofNat 32 count) = reached + BitVec.ofNat 32 count := by
  have ahead : (reached + BitVec.ofNat 32 count - reached).toNat < 2 ^ 31 := by
    rw [BitVec.add_comm, BitVec.add_sub_cancel, BitVec.toNat_ofNat]
    exact lt_of_le_of_lt (Nat.mod_le _ _) few
  rw [later, if_pos ahead]

theorem later_self (reached : BitVec 32) : later reached reached = reached := by
  simp [later]

theorem later_pred (reached : BitVec 32) : later (reached + 1) reached = reached + 1 := by
  have behind : ¬ (reached - (reached + 1)).toNat < 2 ^ 31 := by
    bv_omega
  rw [later, if_neg behind]

/-- How many numbers a segment takes. -/
def Emission.size (emission : Emission) : Nat :=
  emission.payload.length + if emission.kind = .syn ∨ emission.kind = .fin then 1 else 0

/-- A segment that was put on the wire and takes numbers moves the end on. -/
def Emission.extend (reached : BitVec 32) (emission : Emission) : BitVec 32 :=
  if emission.result.ok ∧ emission.size ≠ 0 then
    later reached (emission.sequence + BitVec.ofNat 32 emission.size)
  else reached

/-- The number after the last one that a connection has transmitted. -/
def Connection.transmittedEnd (connection : Connection) : BitVec 32 :=
  connection.emissions.foldl Emission.extend connection.initialSeq

@[simp]
theorem note_transmittedEnd (tcp : Tcp κ) (emission : Emission) :
    (tcp.note emission).current.transmittedEnd =
      emission.extend tcp.current.transmittedEnd := by
  simp [Tcp.note, Connection.transmittedEnd, List.foldl_append]

theorem Emission.extend_of_not_ok {emission : Emission} (held : emission.result.ok = false)
    (reached : BitVec 32) : emission.extend reached = reached := by
  simp [Emission.extend, held]

theorem Emission.extend_of_empty {emission : Emission} (empty : emission.size = 0)
    (reached : BitVec 32) : emission.extend reached = reached := by
  simp [Emission.extend, empty]

theorem Emission.extend_of_ok {emission : Emission} (sent : emission.result.ok = true)
    (takes : emission.size ≠ 0) (reached : BitVec 32) :
    emission.extend reached =
      later reached (emission.sequence + BitVec.ofNat 32 emission.size) := by
  simp [Emission.extend, sent, takes]

/-- The numbers of the client when the end of what was transmitted is `reached`. -/
structure ReachedAt (reached : BitVec 32) (tcp : Tcp κ) : Prop where
  connecting : tcp.state = .synSent →
    tcp.localSeq = reached ∧
      tcp.localSeq = tcp.initialSeq + (if tcp.synTransmitted then 1 else 0) ∧
      tcp.txPending = false
  established : tcp.state = .established →
    (tcp.localSeq = reached ∨ tcp.localSeq = reached + 1) ∧
      (tcp.txPending = true →
        if tcp.txTransmitted then
          tcp.localSeq = reached ∧
            tcp.txSequence + BitVec.ofNat 32 tcp.txPayload.length = reached
        else tcp.txSequence = tcp.localSeq)
  finWait : tcp.state = .finWait →
    tcp.localSeq = reached ∧
      (tcp.txPending = true →
        if tcp.txTransmitted then
          tcp.txSequence + BitVec.ofNat 32 tcp.txPayload.length = reached ∨
            tcp.txSequence + BitVec.ofNat 32 tcp.txPayload.length + 1 = reached
        else tcp.txSequence + 1 = reached)
  size : tcp.state ≠ .closed → tcp.txPending = true →
    0 < tcp.txPayload.length ∧ tcp.txPayload.length ≤ tcpSegmentCap

/-- `local_seq` agrees with the segments of the current connection. -/
def Reached (tcp : Tcp κ) : Prop := ReachedAt tcp.current.transmittedEnd tcp

theorem ReachedAt.closed {reached : BitVec 32} {tcp : Tcp κ} (ended : tcp.state = .closed) :
    ReachedAt reached tcp where
  connecting := fun state => by
    rw [ended] at state
    cases state
  established := fun state => by
    rw [ended] at state
    cases state
  finWait := fun state => by
    rw [ended] at state
    cases state
  size := fun alive => absurd ended alive

/-- A connection that is being opened. -/
theorem ReachedAt.ofSynSent {reached : BitVec 32} {tcp : Tcp κ} (state : tcp.state = .synSent)
    (number : tcp.localSeq = reached)
    (counted : tcp.localSeq = tcp.initialSeq + (if tcp.synTransmitted then 1 else 0))
    (idle : tcp.txPending = false) : ReachedAt reached tcp where
  connecting := fun _ => ⟨number, counted, idle⟩
  established := fun other => by
    rw [state] at other
    cases other
  finWait := fun other => by
    rw [state] at other
    cases other
  size := fun _ pending => by
    rw [idle] at pending
    cases pending

/-- A connection that is open. -/
theorem ReachedAt.ofEstablished {reached : BitVec 32} {tcp : Tcp κ}
    (state : tcp.state = .established)
    (place : tcp.localSeq = reached ∨ tcp.localSeq = reached + 1)
    (data : tcp.txPending = true →
      (0 < tcp.txPayload.length ∧ tcp.txPayload.length ≤ tcpSegmentCap) ∧
        if tcp.txTransmitted then
          tcp.localSeq = reached ∧
            tcp.txSequence + BitVec.ofNat 32 tcp.txPayload.length = reached
        else tcp.txSequence = tcp.localSeq) : ReachedAt reached tcp where
  connecting := fun other => by
    rw [state] at other
    cases other
  established := fun _ => ⟨place, fun pending => (data pending).2⟩
  finWait := fun other => by
    rw [state] at other
    cases other
  size := fun _ pending => (data pending).1

theorem Reached.closed {tcp : Tcp κ} (ended : tcp.state = .closed) : Reached tcp :=
  ReachedAt.closed ended

/-- A segment that takes no numbers. -/
theorem Reached.noteEmpty {tcp : Tcp κ} (reached : Reached tcp) {emission : Emission}
    (empty : emission.size = 0) : Reached (tcp.note emission) := by
  rw [Reached, note_transmittedEnd, Emission.extend_of_empty empty]
  exact ⟨reached.connecting, reached.established, reached.finWait, reached.size⟩

section Calls

variable {world : World κ σ}

theorem netTcpInit_reached (reached : Reached world.tcp) : Reached (netTcpInit world).tcp := by
  unfold netTcpInit
  split
  · exact reached
  · exact .closed rfl

theorem netTcpConnect_reached (reached : Reached world.tcp) (ip : Ipv4)
    (port : BitVec 16) (key : κ) (onData onClose : Option κ) :
    Reached (netTcpConnect world ip port key onData onClose).2.tcp := by
  have ready := netTcpInit_reached reached
  simp only [netTcpConnect]
  split
  · exact ready
  split
  · exact ready
  · exact .ofSynSent rfl rfl (by simp) rfl

/-- A payload that starts at most one number beside the end moves the end. -/
theorem extend_payload {reached : BitVec 32} {emission : Emission}
    (sent : emission.result.ok = true)
    (data : 0 < emission.payload.length ∧ emission.payload.length ≤ tcpSegmentCap)
    (kind : emission.kind ≠ .syn ∧ emission.kind ≠ .fin)
    (place : emission.sequence = reached ∨ emission.sequence = reached + 1 ∨
      emission.sequence + 1 = reached) :
    emission.extend reached =
      emission.sequence + BitVec.ofNat 32 emission.payload.length := by
  have size : emission.size = emission.payload.length := by
    simp [Emission.size, kind.1, kind.2]
  have few : emission.payload.length + 1 < 2 ^ 31 := by
    have cap := data.2
    simp only [tcpSegmentCap] at cap
    omega
  rw [Emission.extend_of_ok sent (by omega), size]
  rcases place with place | place | place
  · rw [place, later_add reached (by omega)]
  · have ahead : emission.sequence + BitVec.ofNat 32 emission.payload.length =
        reached + BitVec.ofNat 32 (emission.payload.length + 1) := by
      rw [place, Nat.add_comm, BitVec.ofNat_add, BitVec.add_assoc]
      rfl
    rw [ahead, later_add reached few]
  · have ahead : emission.sequence + BitVec.ofNat 32 emission.payload.length =
        reached + BitVec.ofNat 32 (emission.payload.length - 1) := by
      have split : emission.payload.length = 1 + (emission.payload.length - 1) := by omega
      rw [← place, BitVec.add_assoc]
      conv => lhs; rw [split, BitVec.ofNat_add]
      rfl
    rw [ahead, later_add reached (by omega)]

theorem netTcpSend_reached (reached : Reached world.tcp) (data : List UInt8) :
    Reached (netTcpSend world data).2.tcp := by
  simp only [netTcpSend]
  split
  · exact reached
  next allowed =>
  simp only [not_or, not_not, Nat.not_lt] at allowed
  obtain ⟨opened, some_, few⟩ := allowed
  split
  · exact reached
  simp only [emitSegment_tcp]
  generalize (emitSegment _ _ _ _ _ _).1 = result
  have data_size : 0 < data.length ∧ data.length ≤ tcpSegmentCap :=
    ⟨Nat.pos_of_ne_zero some_, few⟩
  have place := (reached.established opened).1
  cases result with
  | done bytes =>
      have stop := @extend_payload world.tcp.current.transmittedEnd
        ⟨.payload world.tcp.current.accepted.length, world.tcp.localSeq, world.tcp.remoteSeq,
          data, .done bytes⟩ rfl data_size ⟨by simp, by simp⟩ (place.imp_right .inl)
      change ReachedAt (world.tcp.note ⟨.payload world.tcp.current.accepted.length,
        world.tcp.localSeq, world.tcp.remoteSeq, data, .done bytes⟩).current.transmittedEnd _
      rw [note_transmittedEnd, stop]
      exact .ofEstablished opened (.inl rfl) fun _ => ⟨data_size, rfl, rfl⟩
  | resolving =>
      change ReachedAt (world.tcp.note _).current.transmittedEnd _
      rw [note_transmittedEnd, Emission.extend_of_not_ok rfl]
      exact .ofEstablished opened place fun _ => ⟨data_size, rfl⟩
  | failed =>
      change ReachedAt (world.tcp.note _).current.transmittedEnd _
      rw [note_transmittedEnd, Emission.extend_of_not_ok rfl]
      exact .ofEstablished opened place fun pending => by cases pending

/-- A `SYN` or a `FIN` takes one number. -/
theorem extend_flag {reached sequence acknowledgement : BitVec 32} {kind : SegmentKind}
    {result : Sent} (sent : result.ok = true) (flag : kind = .syn ∨ kind = .fin) :
    Emission.extend reached ⟨kind, sequence, acknowledgement, [], result⟩ =
      later reached (sequence + 1) := by
  have size : Emission.size ⟨kind, sequence, acknowledgement, [], result⟩ = 1 := by
    simp [Emission.size, flag]
  rw [Emission.extend_of_ok sent (by simp [size]), size]
  rfl

theorem netTcpClose_reached (reached : Reached world.tcp) :
    Reached (netTcpClose world).tcp := by
  simp only [netTcpClose]
  split
  case isFalse => exact .closed rfl
  case isTrue opened =>
  obtain ⟨place, data⟩ := reached.established opened
  generalize emitted : emitSegment _ _ _ _ _ _ = sent
  have record : sent.2.tcp = world.tcp.note
      ⟨.fin, world.tcp.localSeq, world.tcp.remoteSeq, [], sent.1⟩ := by
    rw [← emitted, emitSegment_tcp]
  split
  case isFalse => exact .closed rfl
  case isTrue ok =>
  have stop : sent.2.tcp.current.transmittedEnd = world.tcp.localSeq + 1 := by
    rw [record, note_transmittedEnd, extend_flag ok (.inr rfl)]
    rcases place with place | place
    · rw [place]
      exact @later_add _ 1 (by decide)
    · have ahead : world.tcp.localSeq + 1 =
          world.tcp.current.transmittedEnd + BitVec.ofNat 32 2 := by
        rw [place, BitVec.add_assoc]
        rfl
      rw [ahead]
      exact later_add _ (by decide)
  change ReachedAt sent.2.tcp.current.transmittedEnd _
  rw [stop]
  exact {
    connecting := fun state => by cases state
    established := fun state => by cases state
    finWait := fun _ => by
      simp only [record, Tcp.note, true_and]
      intro pending
      have before := data pending
      split
      · next transmitted =>
          rw [if_pos transmitted] at before
          exact .inr (by rw [before.2, before.1])
      · next waiting =>
          rw [if_neg waiting] at before
          rw [before]
    size := fun _ => by
      simp only [record, Tcp.note]
      exact reached.size (by simp [opened]) }

end Calls

theorem ApiCalls.reached {world world' : World κ σ} (calls : ApiCalls world world')
    (reached : Reached world.tcp) : Reached world'.tcp := by
  induction calls with
  | refl => exact reached
  | connect ip port key onData onClose _ ih =>
      exact netTcpConnect_reached ih ip port key onData onClose
  | send data _ ih => exact netTcpSend_reached ih data
  | close _ ih => exact netTcpClose_reached ih
  | other stack dns user _ ih => exact ih

/-! ## Segments and polling -/

section Input

variable {callbacks : Callbacks κ σ} (through : callbacks.ThroughApi) {world : World κ σ}

theorem emitAck_reached (reached : Reached world.tcp) : Reached (emitAck world).tcp := by
  rw [emitAck, emitSegment_tcp]
  exact reached.noteEmpty rfl

theorem Reached.received {tcp : Tcp κ} (reached : Reached tcp) (remoteSeq : BitVec 32)
    (delivered : List UInt8) :
    Reached { tcp with remoteSeq, current := { tcp.current with delivered } } :=
  ⟨reached.connecting, reached.established, reached.finWait, reached.size⟩

theorem countPayload_reached (reached : Reached world.tcp) (payload : List UInt8) :
    Reached (countPayload world payload).tcp := by
  simp only [countPayload]
  split
  · exact reached.received _ _
  · exact reached.received _ world.tcp.current.delivered

/-- A connection opens with `local_seq` one beyond its `SYN`. -/
theorem openConnection_reached (reached : Reached world.tcp) {segment : Segment}
    (opens : segment.opens world.tcp = true) :
    Reached (openConnection world segment).tcp := by
  have connecting : world.tcp.state = .synSent := by
    simp only [Segment.opens, Bool.and_eq_true, decide_eq_true_eq] at opens
    exact opens.1.1.1.1
  obtain ⟨number, -, idle⟩ := reached.connecting connecting
  simp only [openConnection, emitSegment_tcp]
  generalize (emitSegment _ _ _ _ _ _).1 = result
  have opened : Reached { world.tcp with
      remoteSeq := segment.sequence + 1
      localSeq := world.tcp.localSeq + 1
      state := .established } := by
    apply ReachedAt.ofEstablished
    · rfl
    · exact .inr (congrArg (· + 1) number)
    · intro pending
      rw [show world.tcp.txPending = true from pending] at idle
      cases idle
  have noted := @opened.noteEmpty _ _
    ⟨.handshake, world.tcp.localSeq + 1, segment.sequence + 1, [], result⟩ rfl
  exact ⟨noted.connecting, noted.established, noted.finWait, noted.size⟩

theorem acknowledgePayload_reached (reached : Reached world.tcp)
    (connected : world.tcp.state ≠ .synSent) (segment : Segment) :
    Reached (acknowledgePayload world segment).tcp := by
  simp only [acknowledgePayload]
  split
  · exact {
      connecting := fun state => absurd state connected
      established := fun state =>
        ⟨(reached.established state).1, fun pending => by cases pending⟩
      finWait := fun state => ⟨(reached.finWait state).1, fun pending => by cases pending⟩
      size := fun _ pending => by cases pending }
  · exact reached

/-- The first transmission of the `SYN` moves the end by one, and each further one leaves
it. -/
theorem pollSyn_reached (reached : Reached world.tcp)
    (connecting : world.tcp.state = .synSent) : Reached (pollSyn world).2.tcp := by
  obtain ⟨number, counted, idle⟩ := reached.connecting connecting
  simp only [pollSyn]
  generalize emitted : emitSegment _ _ _ _ _ _ = sent
  have record : sent.2.tcp = world.tcp.note
      ⟨.syn, world.tcp.initialSeq, 0, [], sent.1⟩ := by
    rw [← emitted, emitSegment_tcp]
  have stop (ok : sent.1.ok = true) :
      sent.2.tcp.current.transmittedEnd = world.tcp.initialSeq + 1 := by
    rw [record, note_transmittedEnd, extend_flag ok (.inl rfl), ← number, counted]
    cases world.tcp.synTransmitted with
    | false =>
        simp only [Bool.false_eq_true, ↓reduceIte, BitVec.ofNat_eq_ofNat, BitVec.add_zero]
        exact @later_add _ 1 (by decide)
    | true => exact later_self _
  split
  · next first =>
      change ReachedAt sent.2.tcp.current.transmittedEnd _
      rw [stop first.1]
      simp only [record, Tcp.note]
      exact .ofSynSent connecting rfl rfl idle
  next again =>
  have same : sent.2.tcp.current.transmittedEnd = world.tcp.current.transmittedEnd := by
    cases ok : sent.1.ok with
    | false => rw [record, note_transmittedEnd, Emission.extend_of_not_ok ok]
    | true =>
        have counted_before : world.tcp.synTransmitted = true := by
          simpa [ok] using again
        rw [stop ok, ← number, counted, counted_before]
        rfl
  change ReachedAt sent.2.tcp.current.transmittedEnd _
  rw [same, record]
  exact ⟨reached.connecting, reached.established, reached.finWait, reached.size⟩

/-- A payload that is sent again does not move the end. -/
theorem extend_again {reached : BitVec 32} {tcp : Tcp κ} {offset : Nat} {result : Sent}
    (place : tcp.txSequence + BitVec.ofNat 32 tcp.txPayload.length = reached ∨
      tcp.txSequence + BitVec.ofNat 32 tcp.txPayload.length + 1 = reached) :
    Emission.extend reached
      ⟨.payload offset, tcp.txSequence, tcp.remoteSeq, tcp.txPayload, result⟩ = reached := by
  have size : Emission.size
      ⟨.payload offset, tcp.txSequence, tcp.remoteSeq, tcp.txPayload, result⟩ =
        tcp.txPayload.length := by
    simp [Emission.size]
  simp only [Emission.extend, size]
  split
  · rcases place with place | place
    · rw [place, later_self]
    · rw [← place, later_pred]
  · rfl

/-- A pending payload is sent for the first time, and `local_seq` catches up, or again. -/
theorem pollPayload_reached (reached : Reached world.tcp) (alive : world.tcp.state ≠ .closed)
    (connected : world.tcp.state ≠ .synSent) (pending : world.tcp.txPending = true) :
    Reached (pollPayload world).2.tcp := by
  have size := reached.size alive pending
  have beside (first : world.tcp.txTransmitted = false) :
      world.tcp.txSequence = world.tcp.current.transmittedEnd ∨
        world.tcp.txSequence = world.tcp.current.transmittedEnd + 1 ∨
        world.tcp.txSequence + 1 = world.tcp.current.transmittedEnd := by
    cases state : world.tcp.state with
    | closed => exact absurd state alive
    | synSent => exact absurd state connected
    | established =>
        obtain ⟨place, data⟩ := reached.established state
        have unsent := data pending
        simp only [first, Bool.false_eq_true, ↓reduceIte] at unsent
        rw [unsent]
        exact place.imp_right .inl
    | finWait =>
        have unsent := (reached.finWait state).2 pending
        simp only [first, Bool.false_eq_true, ↓reduceIte] at unsent
        exact .inr (.inr unsent)
  have behind (again : world.tcp.txTransmitted = true) :
      world.tcp.txSequence + BitVec.ofNat 32 world.tcp.txPayload.length =
          world.tcp.current.transmittedEnd ∨
        world.tcp.txSequence + BitVec.ofNat 32 world.tcp.txPayload.length + 1 =
          world.tcp.current.transmittedEnd := by
    cases state : world.tcp.state with
    | closed => exact absurd state alive
    | synSent => exact absurd state connected
    | established =>
        have sent := (reached.established state).2 pending
        rw [if_pos again] at sent
        exact .inl sent.2
    | finWait =>
        have sent := (reached.finWait state).2 pending
        rwa [if_pos again] at sent
  simp only [pollPayload]
  generalize emitted : emitSegment _ _ _ _ _ _ = sent
  have record : sent.2.tcp = world.tcp.note
      ⟨.payload (world.tcp.current.accepted.length - world.tcp.txPayload.length),
        world.tcp.txSequence, world.tcp.remoteSeq, world.tcp.txPayload, sent.1⟩ := by
    rw [← emitted, emitSegment_tcp]
  split
  · next first =>
      have unsent : world.tcp.txTransmitted = false := by
        simpa using first.2
      have stop : sent.2.tcp.current.transmittedEnd =
          world.tcp.txSequence + BitVec.ofNat 32 world.tcp.txPayload.length := by
        rw [record, note_transmittedEnd]
        exact extend_payload first.1 size ⟨by simp, by simp⟩ (beside unsent)
      change ReachedAt sent.2.tcp.current.transmittedEnd _
      rw [stop]
      simp only [record, Tcp.note]
      exact {
        connecting := fun state => absurd state connected
        established := fun _ => ⟨.inl rfl, fun _ => ⟨rfl, rfl⟩⟩
        finWait := fun _ => ⟨rfl, fun _ => .inl rfl⟩
        size := fun _ _ => size }
  next again =>
  have same : sent.2.tcp.current.transmittedEnd = world.tcp.current.transmittedEnd := by
    rw [record, note_transmittedEnd]
    cases ok : sent.1.ok with
    | false => exact Emission.extend_of_not_ok ok _
    | true =>
        refine extend_again (behind ?_)
        simpa [ok] using again
  change ReachedAt sent.2.tcp.current.transmittedEnd _
  rw [same, record]
  exact ⟨reached.connecting, reached.established, reached.finWait, reached.size⟩

/-- A `FIN` that is sent again ends where the first one did. -/
theorem pollFin_reached (reached : Reached world.tcp) (waiting : world.tcp.state = .finWait) :
    Reached (emitSegment world (fun _ => .fin) 0x11 (world.tcp.localSeq - 1)
      world.tcp.remoteSeq []).2.tcp := by
  have number := (reached.finWait waiting).1
  rw [emitSegment_tcp]
  generalize (emitSegment _ _ _ _ _ _).1 = result
  rw [Reached, note_transmittedEnd]
  have same : Emission.extend world.tcp.current.transmittedEnd
      ⟨.fin, world.tcp.localSeq - 1, world.tcp.remoteSeq, [], result⟩ =
        world.tcp.current.transmittedEnd := by
    cases ok : result.ok with
    | false => exact Emission.extend_of_not_ok ok _
    | true => rw [extend_flag ok (.inr rfl), number, BitVec.sub_add_cancel, later_self]
  rw [same]
  exact ⟨reached.connecting, reached.established, reached.finWait, reached.size⟩

include through

theorem stable_reached : Stable callbacks fun now => Reached now.tcp where
  connect := fun key connected now => (through.connect key connected now).reached
  data := fun key bytes now => (through.data key bytes now).reached
  close := fun key clean now => (through.close key clean now).reached
  clear := fun _ _ => .closed rfl
  abort := fun _ _ => .closed rfl
  acknowledge := fun _ reached => emitAck_reached reached

theorem inputRules_reached (reached : Reached world.tcp) (segment : Segment) :
    InputRules callbacks world segment fun now => Reached now.tcp where
  opened := fun opens => openConnection_reached reached opens
  first := fun _ _ _ before _ => countPayload_reached before _
  acknowledged := fun connected => acknowledgePayload_reached reached connected segment
  counted := fun connected _ _ =>
    countPayload_reached (acknowledgePayload_reached reached connected segment) _
  finished := fun _ _ _ => (stable_reached through).inputFin fun _ => .closed rfl

theorem netTcpInput_reached (reached : Reached world.tcp) (src dst : Ipv4)
    (bytes : List UInt8) : Reached (netTcpInput callbacks world src dst bytes).tcp :=
  (stable_reached through).netTcpInput reached src dst bytes fun segment _ _ =>
    inputRules_reached through reached segment

omit through in
theorem Reached.counters {tcp : Tcp κ} (reached : Reached tcp) (pollTicks retries : Nat) :
    Reached { tcp with pollTicks, retries } :=
  ⟨reached.connecting, reached.established, reached.finWait, reached.size⟩

theorem netTcpPoll_reached (reached : Reached world.tcp) :
    Reached (netTcpPoll callbacks world).tcp := by
  refine (stable_reached through).netTcpPoll reached
    (fun _ pollTicks retries good => good.counters pollTicks retries) ?_
  intro alive pollTicks before
  exact @pollTransmit_keeps _ _ (fun now => Reached now.tcp) _ before
    (fun connecting => pollSyn_reached before connecting)
    (fun connected pending => pollPayload_reached before alive connected pending)
    (fun waiting _ => pollFin_reached before waiting)

theorem tcpAfter_reached (reached : Reached world.tcp) (event : TcpEvent κ σ) :
    Reached (tcpAfter callbacks world event).tcp := by
  cases event with
  | init => exact netTcpInit_reached reached
  | connect ip port key onData onClose =>
      exact netTcpConnect_reached reached ip port key onData onClose
  | send data => exact netTcpSend_reached reached data
  | close => exact netTcpClose_reached reached
  | poll => exact netTcpPoll_reached through reached
  | input src dst bytes => exact netTcpInput_reached through reached src dst bytes
  | other stack dns user => exact reached

theorem run_reached {start finish : World κ σ} {events : List (TcpEvent κ σ)}
    (fresh : start.tcp = Tcp.initial) (run : Run (TcpStep callbacks) start events finish) :
    Reached finish.tcp := by
  refine @Run.invariant _ _ _ _ _ _ (fun world => Reached world.tcp) (fun _ => True) ?_ run
    (fresh ▸ .closed rfl) (fun _ _ => trivial)
  rintro world event world' reached - rfl
  exact tcpAfter_reached through reached event

end Input

/-! ## A connection that has sent its `FIN` -/

/-- The connection transmits nothing more: it waits for the acknowledgement of its `FIN`,
or it is over. -/
def Waits (stop : BitVec 32) (tcp : Tcp κ) : Prop :=
  tcp.state ≠ .established ∧
    (tcp.state = .finWait → tcp.current.transmittedEnd = stop)

theorem ApiCalls.waits {stop : BitVec 32} {world world' : World κ σ}
    (calls : ApiCalls world world') (waits : Waits stop world.tcp) : Waits stop world'.tcp := by
  induction calls with
  | refl => exact waits
  | @connect middle ip port key onData onClose _ ih =>
      have ready : Waits stop (netTcpInit middle).tcp := by
        unfold netTcpInit
        split
        · exact ih
        · exact ⟨by simp, fun state => by cases state⟩
      simp only [netTcpConnect]
      split
      · exact ready
      split
      · exact ready
      · exact ⟨by simp, fun state => by cases state⟩
  | @send middle data _ ih =>
      simp only [netTcpSend, ne_eq, ih.1, not_false_eq_true, true_or, ↓reduceIte]
      exact ih
  | @close middle _ ih =>
      simp only [netTcpClose, ih.1, ↓reduceIte]
      exact ⟨by simp [clearConnection], fun state => by cases state⟩
  | other stack dns user _ ih => exact ih

section Settling

variable {callbacks : Callbacks κ σ} {world : World κ σ} {segment : Segment}

theorem receivePayload_waits (through : callbacks.ThroughApi) {stop : BitVec 32}
    (waits : Waits stop world.tcp) :
    Waits stop (receivePayload callbacks world segment).tcp := by
  simp only [receivePayload]
  split
  case isFalse => exact waits
  case isTrue next =>
  have counted : Waits stop (countPayload world segment.payload).tcp := by
    simp only [countPayload]
    split
    · exact waits
    · exact waits
  have told := @callIf_keeps _ _ (fun now => Waits stop now.tcp)
    (fun key => callbacks.tcpData key segment.payload)
    (fun key now => (through.data key segment.payload now).waits) _ counted
    (countPayload world segment.payload).tcp.dataCallback
  simp only [deliverPayload, emitAck, emitSegment_tcp]
  refine ⟨told.1, fun state => ?_⟩
  rw [note_transmittedEnd, Emission.extend_of_empty rfl]
  exact told.2 state

/-- A payload was transmitted and waits for its acknowledgement. -/
def Tcp.Outstanding (tcp : Tcp κ) : Prop := tcp.txPending = true ∧ tcp.txTransmitted = true

theorem acknowledgePayload_clears (ack : segment.hasAck = true)
    (outstanding : world.tcp.Outstanding) :
    (acknowledgePayload world segment).tcp.txPending = false ↔
      world.tcp.localSeq ≤ segment.acknowledgement := by
  simp only [acknowledgePayload, ack, outstanding.1, outstanding.2, Bool.and_true, Bool.true_and,
    ge_iff_le, decide_eq_true_eq]
  split
  · next seen => exact ⟨fun _ => seen, fun _ => rfl⟩
  · next unseen =>
      exact ⟨fun clear => absurd (outstanding.1.symm.trans clear) (by simp),
        fun seen => absurd seen unseen⟩

theorem acknowledgePayload_waiting (pending : world.tcp.txPending = true)
    (waiting : world.tcp.txTransmitted = false) :
    (acknowledgePayload world segment).tcp.txPending = true := by
  simp [acknowledgePayload, waiting, pending]

/-- What a segment does that is an acknowledgement and nothing else. -/
theorem netTcpInput_bare {src dst : Ipv4} {bytes : List UInt8}
    (accepted : acceptSegment world src dst bytes = some segment)
    (ack : segment.hasAck = true) (unbroken : segment.hasRst = false)
    (unfinished : segment.hasFin = false) (bare : segment.payload = [])
    (connected : world.tcp.state ≠ .synSent) (outstanding : world.tcp.Outstanding) :
    (netTcpInput callbacks world src dst bytes).tcp.txPending =
      (acknowledgePayload world segment).tcp.txPending := by
  simp only [netTcpInput, accepted, unbroken, Bool.false_eq_true, ↓reduceIte, connected, inputOpen,
    unfinished, receivePayload, bare, ne_eq, not_true_eq_false, false_and]
  split
  · next seen =>
      have number : (acknowledgePayload world segment).tcp.localSeq = world.tcp.localSeq := by
        simp only [acknowledgePayload]
        split <;> rfl
      simp only [ack, number, Bool.and_true, Bool.and_eq_true, decide_eq_true_eq] at seen
      exact ((acknowledgePayload_clears ack outstanding).mpr seen.2).symm
  · rfl

/-- A connection that waits for the acknowledgement of its `FIN` ends when the number is
not below `local_seq`. -/
theorem netTcpInput_finWait (through : callbacks.ThroughApi) (reached : Reached world.tcp)
    {src dst : Ipv4} {bytes : List UInt8}
    (accepted : acceptSegment world src dst bytes = some segment)
    (ack : segment.hasAck = true) (unbroken : segment.hasRst = false)
    (unfinished : segment.hasFin = false) (waiting : world.tcp.state = .finWait)
    (still : (receivePayload callbacks (acknowledgePayload world segment) segment).tcp.state =
      .finWait) :
    (netTcpInput callbacks world src dst bytes).tcp.state ≠ .finWait ↔
      world.tcp.localSeq ≤ segment.acknowledgement := by
  have connected : world.tcp.state ≠ .synSent := by
    rw [waiting]
    exact fun state => by cases state
  have waits : Waits world.tcp.localSeq (acknowledgePayload world segment).tcp := by
    simp only [acknowledgePayload]
    split
    · exact ⟨by simp [waiting], fun _ => (reached.finWait waiting).1.symm⟩
    · exact ⟨by simp [waiting], fun _ => (reached.finWait waiting).1.symm⟩
  have received := (stable_reached through).receivePayload connected
    (inputRules_reached through reached segment)
  have number : (receivePayload callbacks (acknowledgePayload world segment)
      segment).tcp.localSeq = world.tcp.localSeq :=
    (received.finWait still).1.trans ((receivePayload_waits through waits).2 still)
  simp only [netTcpInput, accepted, unbroken, Bool.false_eq_true, ↓reduceIte, connected, inputOpen,
    unfinished, still, decide_true, Bool.true_and, ack, number, ge_iff_le, decide_eq_true_eq]
  split
  · next seen => exact ⟨fun _ => seen, fun _ => by simp [clearConnection]⟩
  · next unseen => exact ⟨fun left => absurd still left, fun seen => absurd seen unseen⟩

/-- Accepting every number from a limit on is accepting the limit alone exactly for the
numbers up to the limit. -/
theorem from_limit_iff {limit number : BitVec 32} :
    (limit ≤ number ↔ number = limit) ↔ number ≤ limit := by
  constructor
  · intro exactly
    by_cases above : limit ≤ number
    · rw [exactly.mp above]
      exact BitVec.le_refl limit
    · exact BitVec.le_of_lt (BitVec.not_le.mp above)
  · intro below
    constructor
    · intro above
      exact BitVec.le_antisymm below above
    · intro same
      rw [same]
      exact BitVec.le_refl limit

end Settling

/-- An acknowledgement drops the payload exactly when it names the end of what was
transmitted. -/
def SettlesPayload (world : World κ σ) (segment : Segment) : Prop :=
  (acknowledgePayload world segment).tcp.txPending = false ↔
    segment.acknowledgement = world.tcp.current.transmittedEnd

/-- An acknowledgement ends a connection that has sent its `FIN` exactly when it names the
end of what was transmitted. -/
def SettlesFin (callbacks : Callbacks κ σ) (world : World κ σ) (src dst : Ipv4)
    (bytes : List UInt8) (segment : Segment) : Prop :=
  (netTcpInput callbacks world src dst bytes).tcp.state ≠ .finWait ↔
    segment.acknowledgement = world.tcp.current.transmittedEnd

/-- In every run, an acknowledgement that arrives while payload or `FIN` is outstanding is
judged rightly exactly when its number is at most `local_seq`.  The end of what was
transmitted is always accepted, and a payload that was not transmitted is never dropped.
The data callback may close the connection before a `FIN` is looked for. -/
theorem tcp_acknowledgements_exact {callbacks : Callbacks κ σ} (through : callbacks.ThroughApi)
    {start finish : World κ σ} {events : List (TcpEvent κ σ)}
    (fresh : start.tcp = Tcp.initial) (run : Run (TcpStep callbacks) start events finish)
    {src dst : Ipv4} {bytes : List UInt8} {segment : Segment}
    (accepted : acceptSegment finish src dst bytes = some segment)
    (ack : segment.hasAck = true) (unbroken : segment.hasRst = false) :
    (finish.tcp.Outstanding →
      (SettlesPayload finish segment ↔ segment.acknowledgement ≤ finish.tcp.localSeq) ∧
        (segment.acknowledgement = finish.tcp.current.transmittedEnd →
          (acknowledgePayload finish segment).tcp.txPending = false) ∧
        (segment.payload = [] → segment.hasFin = false →
          (netTcpInput callbacks finish src dst bytes).tcp.txPending =
            (acknowledgePayload finish segment).tcp.txPending)) ∧
    (finish.tcp.txPending = true → finish.tcp.txTransmitted = false →
      (acknowledgePayload finish segment).tcp.txPending = true) ∧
    (finish.tcp.state = .finWait → segment.hasFin = false →
      (receivePayload callbacks (acknowledgePayload finish segment) segment).tcp.state =
        .finWait →
      (SettlesFin callbacks finish src dst bytes segment ↔
          segment.acknowledgement ≤ finish.tcp.localSeq) ∧
        (segment.acknowledgement = finish.tcp.current.transmittedEnd →
          (netTcpInput callbacks finish src dst bytes).tcp.state ≠ .finWait)) := by
  have reached := run_reached through fresh run
  refine ⟨fun outstanding => ?_, acknowledgePayload_waiting, fun waiting unfinished still => ?_⟩
  · have clears := acknowledgePayload_clears ack outstanding
    have connected : finish.tcp.state ≠ .synSent := by
      intro state
      have idle := (reached.connecting state).2.2
      rw [outstanding.1] at idle
      cases idle
    have number : finish.tcp.current.transmittedEnd = finish.tcp.localSeq := by
      cases state : finish.tcp.state with
      | closed => exact absurd state (acceptSegment_alive accepted)
      | synSent => exact absurd state connected
      | established =>
          have sent := (reached.established state).2 outstanding.1
          rw [if_pos outstanding.2] at sent
          exact sent.1.symm
      | finWait => exact (reached.finWait state).1.symm
    rw [SettlesPayload, number, clears]
    exact ⟨from_limit_iff, fun exactly => exactly ▸ BitVec.le_refl _,
      fun bare unfinished =>
        netTcpInput_bare accepted ack unbroken unfinished bare connected outstanding⟩
  · have leaves := netTcpInput_finWait through reached accepted ack unbroken unfinished waiting
      still
    have number := (reached.finWait waiting).1
    rw [SettlesFin, ← number, leaves]
    exact ⟨from_limit_iff, fun exactly => exactly ▸ BitVec.le_refl _⟩

/-- The world after five bytes were sent. -/
def sentWorld : World Unit Unit := tcpFinish idleCallbacks neighbourWorld sentEvents

/-- An acknowledgement with the given number. -/
def acknowledging (number : BitVec 32) : List UInt8 :=
  tcpSegment 0x0A000202 0x0A00020F 80 49152 0x10 1001 number []

/-- The peer acknowledges a thousand bytes more than were sent, and the payload is
dropped. -/
theorem tcp_acknowledgement_of_unsent_data :
    Run (TcpStep idleCallbacks) neighbourWorld sentEvents sentWorld ∧
      sentWorld.tcp.Outstanding ∧
      acceptSegment sentWorld 0x0A000202 0x0A00020F
          (acknowledging (initialSequence 49152 80 + 1007)) =
        some ⟨1001, initialSequence 49152 80 + 1007, 0x10, []⟩ ∧
      sentWorld.tcp.current.transmittedEnd = initialSequence 49152 80 + 7 ∧
      (netTcpInput idleCallbacks sentWorld 0x0A000202 0x0A00020F
        (acknowledging (initialSequence 49152 80 + 1007))).tcp.txPending = false ∧
      ¬ SettlesPayload sentWorld ⟨1001, initialSequence 49152 80 + 1007, 0x10, []⟩ := by
  have facts : sentWorld.tcp.txPending = true ∧ sentWorld.tcp.txTransmitted = true ∧
      acceptSegment sentWorld 0x0A000202 0x0A00020F
          (acknowledging (initialSequence 49152 80 + 1007)) =
        some ⟨1001, initialSequence 49152 80 + 1007, 0x10, []⟩ ∧
      sentWorld.tcp.current.transmittedEnd = initialSequence 49152 80 + 7 ∧
      (netTcpInput idleCallbacks sentWorld 0x0A000202 0x0A00020F
        (acknowledging (initialSequence 49152 80 + 1007))).tcp.txPending = false ∧
      (acknowledgePayload sentWorld
        ⟨1001, initialSequence 49152 80 + 1007, 0x10, []⟩).tcp.txPending = false := by
    decide +kernel
  obtain ⟨pending, transmitted, accepted, stop, input, dropped⟩ := facts
  refine ⟨run_tcpFinish _ _ _, ⟨pending, transmitted⟩, accepted, stop, input, ?_⟩
  intro settles
  have wrong := settles.mp dropped
  rw [stop] at wrong
  exact absurd wrong (by decide)

/-- The general statement at the right acknowledgement. -/
theorem tcp_acknowledgements_exact_sent :
    SettlesPayload sentWorld ⟨1001, initialSequence 49152 80 + 7, 0x10, []⟩ ∧
      (acknowledgePayload sentWorld
        ⟨1001, initialSequence 49152 80 + 7, 0x10, []⟩).tcp.txPending = false := by
  have facts : sentWorld.tcp.txPending = true ∧ sentWorld.tcp.txTransmitted = true ∧
      acceptSegment sentWorld 0x0A000202 0x0A00020F
          (acknowledging (initialSequence 49152 80 + 7)) =
        some ⟨1001, initialSequence 49152 80 + 7, 0x10, []⟩ ∧
      sentWorld.tcp.localSeq = initialSequence 49152 80 + 7 ∧
      sentWorld.tcp.current.transmittedEnd = initialSequence 49152 80 + 7 := by
    decide +kernel
  have run : Run (TcpStep idleCallbacks) neighbourWorld sentEvents sentWorld :=
    run_tcpFinish _ _ _
  generalize sentWorld = world at facts run ⊢
  obtain ⟨pending, transmitted, accepted, number, stop⟩ := facts
  have settled := (tcp_acknowledgements_exact idleCallbacks_throughApi rfl run accepted
    (by decide) (by decide)).1 ⟨pending, transmitted⟩
  refine ⟨settled.1.mpr ?_, settled.2.1 stop.symm⟩
  rw [number]
  exact BitVec.le_refl _

end Charis.Net
