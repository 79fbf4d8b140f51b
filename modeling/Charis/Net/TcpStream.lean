import Charis.Net.Encoding
import Charis.Net.TcpRules

/-!
# The stream of the peer

The peer of a connection sends the bytes of one stream in segments, each with the
sequence number of its place.  The network may lose, repeat and reorder them.  What the
client gives to its data callback is a prefix of the stream as long as the client does
not take a repeated `SYN` for the next payload.
-/

namespace Charis.Net

open Charis.Lib

variable {κ σ : Type}

/-- The other end of a connection: its initial sequence number and the bytes it
sends. -/
structure Peer where
  initial : BitVec 32
  stream : List UInt8

/-- The segments that a peer sends, each with the offset of its payload in the stream.
The `SYN` takes the sequence number before the first byte and the `FIN` the one after
the last. -/
inductive Peer.Sends (peer : Peer) (segment : Segment) : (offset : Nat) → Prop
  | syn : segment.hasSyn = true → segment.sequence = peer.initial →
      segment.payload <+: peer.stream →
      (segment.hasFin = true → segment.payload = peer.stream) → peer.Sends segment 0
  | data (offset : Nat) : segment.hasSyn = false →
      segment.sequence = peer.initial + 1 + BitVec.ofNat 32 offset →
      segment.payload <+: peer.stream.drop offset →
      (segment.hasFin = true → offset + segment.payload.length = peer.stream.length) →
      peer.Sends segment offset

theorem Peer.Sends.payload_prefix {peer : Peer} {segment : Segment} {offset : Nat}
    (sends : peer.Sends segment offset) : segment.payload <+: peer.stream.drop offset := by
  cases sends with
  | syn _ _ inside _ => simpa using inside
  | data _ _ _ inside _ => exact inside

theorem Peer.Sends.fin_last {peer : Peer} {segment : Segment} {offset : Nat}
    (sends : peer.Sends segment offset) (fin : segment.hasFin = true) :
    offset + segment.payload.length = peer.stream.length := by
  cases sends with
  | syn _ _ _ last => simp [last fin]
  | data _ _ _ _ last => exact last fin

/-- A property of all connections, each with its number. -/
structure Tcp.Records (tcp : Tcp κ) (property : Nat → Connection → Prop) : Prop where
  past : ∀ number connection, tcp.past[number]? = some connection →
    property number connection
  current : property tcp.past.length tcp.current

theorem Tcp.Records.connected {before after : Tcp κ} {property : Nat → Connection → Prop}
    (records : before.Records property) (past : after.past = before.past ++ [before.current])
    (fresh : property (before.past.length + 1) after.current) : after.Records property where
  past := by
    intro number connection found
    rw [past] at found
    rcases Nat.lt_trichotomy number before.past.length with old | last | beyond
    · rw [List.getElem?_append_left old] at found
      exact records.past number connection found
    · subst last
      simp only [List.getElem?_concat_length, Option.some.injEq] at found
      exact found ▸ records.current
    · rw [List.getElem?_eq_none (by simp; omega)] at found
      cases found
  current := by
    rw [past, List.length_append]
    exact fresh

/-- Nothing has changed that concerns the receipt of data. -/
structure SameReceiver (before after : Tcp κ) : Prop where
  past : after.past = before.past
  delivered : after.current.delivered = before.current.delivered
  closes : after.current.closes = before.current.closes
  remoteSeq : after.remoteSeq = before.remoteSeq
  state : after.state = before.state
  dataCallback : after.dataCallback = before.dataCallback
  closeCallback : after.closeCallback = before.closeCallback
  initialized : after.initialized = before.initialized

namespace SameReceiver

theorem refl (tcp : Tcp κ) : SameReceiver tcp tcp := ⟨rfl, rfl, rfl, rfl, rfl, rfl, rfl, rfl⟩

theorem emitSegment (world : World κ σ) (kind : Sent → SegmentKind) (flags : BitVec 8)
    (sequence acknowledgement : BitVec 32) (payload : List UInt8) :
    SameReceiver world.tcp
      (emitSegment world kind flags sequence acknowledgement payload).2.tcp := by
  rw [emitSegment_tcp]
  exact ⟨rfl, rfl, rfl, rfl, rfl, rfl, rfl, rfl⟩

theorem emitAck (world : World κ σ) : SameReceiver world.tcp (emitAck world).tcp :=
  emitSegment world _ _ _ _ _

theorem netTcpSend (world : World κ σ) (data : List UInt8) :
    SameReceiver world.tcp (netTcpSend world data).2.tcp := by
  simp only [Net.netTcpSend]
  split
  · exact .refl _
  split
  · exact .refl _
  · simp only [emitSegment_tcp]
    generalize (Net.emitSegment _ _ _ _ _ _).1 = result
    cases result <;> exact ⟨rfl, rfl, rfl, rfl, rfl, rfl, rfl, rfl⟩

theorem acknowledgePayload (world : World κ σ) (segment : Segment) :
    SameReceiver world.tcp (acknowledgePayload world segment).tcp := by
  simp only [Net.acknowledgePayload]
  split
  · exact ⟨rfl, rfl, rfl, rfl, rfl, rfl, rfl, rfl⟩
  · exact .refl _

theorem pollSyn (world : World κ σ) : SameReceiver world.tcp (pollSyn world).2.tcp := by
  have sent := emitSegment world (fun _ => .syn) 0x02 world.tcp.initialSeq 0 []
  simp only [Net.pollSyn]
  generalize Net.emitSegment _ _ _ _ _ _ = emitted at sent ⊢
  split
  · exact ⟨sent.past, sent.delivered, sent.closes, sent.remoteSeq, sent.state,
      sent.dataCallback, sent.closeCallback, sent.initialized⟩
  · exact sent

theorem pollPayload (world : World κ σ) :
    SameReceiver world.tcp (pollPayload world).2.tcp := by
  have sent := emitSegment world
    (fun _ => .payload (world.tcp.current.accepted.length - world.tcp.txPayload.length)) 0x18
    world.tcp.txSequence world.tcp.remoteSeq world.tcp.txPayload
  simp only [Net.pollPayload]
  generalize Net.emitSegment _ _ _ _ _ _ = emitted at sent ⊢
  split
  · exact ⟨sent.past, sent.delivered, sent.closes, sent.remoteSeq, sent.state,
      sent.dataCallback, sent.closeCallback, sent.initialized⟩
  · exact sent

end SameReceiver

/-- What a connection has got is a prefix of the stream of its peer and, if `whole`, all
of it once the connection was closed cleanly. -/
def Received (peers : Nat → Peer) (whole : Prop) (number : Nat) (connection : Connection) :
    Prop :=
  connection.delivered <+: (peers number).stream ∧
    (whole → true ∈ connection.closes → connection.delivered = (peers number).stream)

/-- The client knows its place in the stream. -/
structure Receiving (peers : Nat → Peer) (whole : Prop) (tcp : Tcp κ) : Prop where
  records : tcp.Records (Received peers whole)
  connecting : tcp.state = .synSent → tcp.current.delivered = []
  position : tcp.state ≠ .synSent → tcp.state ≠ .closed → tcp.dataCallback.isSome = true →
    tcp.remoteSeq = (peers tcp.past.length).initial + 1 +
      BitVec.ofNat 32 tcp.current.delivered.length
  unclosed : tcp.state ≠ .closed → tcp.current.closes = []
  closed : tcp.state = .closed → tcp.dataCallback = none ∧ tcp.closeCallback = none
  ready : tcp.initialized = false → tcp.state = .closed

theorem Received.congr {peers : Nat → Peer} {whole : Prop} {number : Nat}
    {connection connection' : Connection} (received : Received peers whole number connection)
    (delivered : connection'.delivered = connection.delivered)
    (closes : connection'.closes = connection.closes) :
    Received peers whole number connection' := by
  unfold Received at received ⊢
  rwa [delivered, closes]

namespace Receiving

variable {peers : Nat → Peer} {whole : Prop} {tcp tcp' : Tcp κ}

theorem fresh : Receiving peers whole (Tcp.initial : Tcp κ) where
  records := {
    past := fun _ _ found => by simp [Tcp.initial] at found
    current := ⟨List.nil_prefix, fun _ closed => by simp [Tcp.initial] at closed⟩ }
  connecting := fun _ => rfl
  position := fun _ alive => absurd rfl alive
  unclosed := fun _ => rfl
  closed := fun _ => ⟨rfl, rfl⟩
  ready := fun _ => rfl

theorem recordsAdvanced {world : World κ σ} (receiving : Receiving peers whole world.tcp)
    (count : BitVec 32) :
    (emitAck (advanceRemote world count)).tcp.Records (Received peers whole) := by
  have same := SameReceiver.emitAck (advanceRemote world count)
  exact {
    past := fun number connection found =>
      receiving.records.past number connection (same.past ▸ found)
    current := by
      rw [same.past]
      exact receiving.records.current.congr same.delivered same.closes }

variable (receiving : Receiving peers whole tcp)

include receiving

theorem recordsOf (same : SameReceiver tcp tcp') : tcp'.Records (Received peers whole) where
  past := fun number connection found =>
    receiving.records.past number connection (same.past ▸ found)
  current := by
    rw [same.past]
    exact receiving.records.current.congr same.delivered same.closes

theorem congr (same : SameReceiver tcp tcp') : Receiving peers whole tcp' where
  records := receiving.recordsOf same
  connecting := fun state => by
    rw [same.delivered]
    exact receiving.connecting (same.state ▸ state)
  position := by
    rw [same.state, same.dataCallback, same.remoteSeq, same.past, same.delivered]
    exact receiving.position
  unclosed := by
    rw [same.state, same.closes]
    exact receiving.unclosed
  closed := by
    rw [same.state, same.dataCallback, same.closeCallback]
    exact receiving.closed
  ready := by
    rw [same.state, same.initialized]
    exact receiving.ready

theorem clear : Receiving peers whole (clearConnection tcp) where
  records := ⟨receiving.records.past, receiving.records.current.congr rfl rfl⟩
  connecting := fun state => by cases state
  position := fun _ alive => absurd rfl alive
  unclosed := fun alive => absurd rfl alive
  closed := fun _ => ⟨rfl, rfl⟩
  ready := fun _ => rfl

end Receiving

/-- The end of a connection whose close callback is told. -/
theorem Tcp.Records.close {peers : Nat → Peer} {whole : Prop} {tcp : Tcp κ} {clean : Bool}
    (records : tcp.Records (Received peers whole))
    (complete : whole → clean = true → tcp.closeCallback.isSome = true →
      tcp.current.delivered = (peers tcp.past.length).stream) :
    Receiving peers whole (clearConnection (tcp.noteClose clean)) where
  records := {
    past := fun number connection found =>
      records.past number connection (by
        rw [← found]
        simp only [clearConnection, Tcp.noteClose]
        split <;> rfl)
    current := by
      simp only [clearConnection, Tcp.noteClose]
      split
      · next told =>
          refine ⟨records.current.1, fun whole' member => ?_⟩
          rcases List.mem_append.mp member with old | new
          · exact records.current.2 whole' old
          · exact complete whole' (List.mem_singleton.mp new).symm told
      · exact records.current }
  connecting := fun state => by cases state
  position := fun _ alive => absurd rfl alive
  unclosed := fun alive => absurd rfl alive
  closed := fun _ => ⟨rfl, rfl⟩
  ready := fun _ => rfl

section Calls

variable {peers : Nat → Peer} {whole : Prop} {world : World κ σ}

theorem netTcpInit_receiving (receiving : Receiving peers whole world.tcp) :
    Receiving peers whole (netTcpInit world).tcp := by
  unfold netTcpInit
  split
  · exact receiving
  next unready =>
  have closed := receiving.ready (by simpa using unready)
  exact {
    records := ⟨receiving.records.past, receiving.records.current⟩
    connecting := fun state => by cases state
    position := fun _ alive => absurd rfl alive
    unclosed := fun alive => absurd rfl alive
    closed := fun _ => receiving.closed closed
    ready := fun _ => rfl }

theorem netTcpConnect_receiving (receiving : Receiving peers whole world.tcp) (ip : Ipv4)
    (port : BitVec 16) (key : κ) (onData onClose : Option κ) :
    Receiving peers whole (netTcpConnect world ip port key onData onClose).2.tcp := by
  have ready := netTcpInit_receiving receiving
  have initialized : (netTcpInit world).tcp.initialized = true := by
    unfold netTcpInit
    split
    · assumption
    · rfl
  simp only [netTcpConnect]
  split
  · exact ready
  split
  · exact ready
  · exact {
      records := ready.records.connected rfl ⟨List.nil_prefix, fun _ closed => by cases closed⟩
      connecting := fun _ => rfl
      position := fun connected => absurd rfl connected
      unclosed := fun _ => rfl
      closed := fun state => by cases state
      ready := fun unready => by
        rw [show (netTcpInit world).tcp.initialized = false from unready] at initialized
        cases initialized }

theorem netTcpClose_receiving (receiving : Receiving peers whole world.tcp) :
    Receiving peers whole (netTcpClose world).tcp := by
  have sent := receiving.congr (SameReceiver.emitSegment world (fun _ => .fin) 0x11
    world.tcp.localSeq world.tcp.remoteSeq [])
  have state := (SameReceiver.emitSegment world (fun _ => .fin) 0x11
    world.tcp.localSeq world.tcp.remoteSeq []).state
  simp only [netTcpClose]
  split
  case isFalse => exact receiving.clear
  case isTrue opened =>
  generalize emitSegment _ _ _ _ _ _ = emitted at sent state ⊢
  rw [opened] at state
  split
  · exact {
      records := ⟨sent.records.past, sent.records.current⟩
      connecting := fun state => by cases state
      position := fun _ _ => sent.position (by simp [state]) (by simp [state])
      unclosed := fun _ => sent.unclosed (by simp [state])
      closed := fun state => by cases state
      ready := fun unready => by
        rw [sent.ready unready] at state
        cases state }
  · exact sent.clear

end Calls

/-! ## Segments -/

/-- The payload of a segment that is taken has its place right after the bytes that were
delivered. -/
def InPlace (tcp : Tcp κ) (segment : Segment) (offset : Nat) : Prop :=
  tcp.state ≠ .synSent → tcp.dataCallback.isSome = true → segment.payload ≠ [] →
    segment.sequence = tcp.remoteSeq → offset = tcp.current.delivered.length

/-- A `FIN` comes with the next payload, or all payload before it was delivered. -/
def FinInOrder (tcp : Tcp κ) (segment : Segment) (offset : Nat) : Prop :=
  segment.hasFin = true → tcp.state ≠ .synSent → tcp.closeCallback.isSome = true →
    tcp.dataCallback.isSome = true ∧
      (segment.sequence = tcp.remoteSeq ∧ offset = tcp.current.delivered.length ∨
        offset + segment.payload.length = tcp.current.delivered.length)

/-- The next part of a list completes it. -/
theorem prefix_append_eq {α : Type} {front part whole : List α} (got : front <+: whole)
    (next : part <+: whole.drop front.length)
    (all : front.length + part.length = whole.length) : front ++ part = whole := by
  obtain ⟨rest, rfl⟩ := got
  rw [List.drop_left] at next
  rw [next.eq_of_length (by simpa using all)]

section Input

variable {peers : Nat → Peer} {whole : Prop} {callbacks : Callbacks κ σ}
  (within : callbacks.WithinSession) {world : World κ σ}

theorem SessionCalls.receiving {world' : World κ σ} (calls : SessionCalls world world')
    (receiving : Receiving peers whole world.tcp) : Receiving peers whole world'.tcp :=
  @SessionCalls.keeps _ _ (fun now => Receiving peers whole now.tcp) _ _ calls receiving
    (fun now data good => good.congr (SameReceiver.netTcpSend now data))
    (fun _ good => netTcpClose_receiving good) (fun _ _ _ _ good => good)

/-- The client is past the handshake of a connection and has delivered certain bytes on
it. -/
def HasDelivered (number : Nat) (delivered : List UInt8) (tcp : Tcp κ) : Prop :=
  tcp.past.length = number ∧ tcp.current.delivered = delivered ∧ tcp.state ≠ .synSent

theorem SameReceiver.hasDelivered {before after : Tcp κ} (same : SameReceiver before after)
    {number : Nat} {delivered : List UInt8} (holds : HasDelivered number delivered before) :
    HasDelivered number delivered after := by
  unfold HasDelivered at holds ⊢
  rwa [same.past, same.delivered, same.state]

theorem netTcpClose_hasDelivered {number : Nat} {delivered : List UInt8}
    (holds : HasDelivered number delivered world.tcp) :
    HasDelivered number delivered (netTcpClose world).tcp := by
  have sent := (SameReceiver.emitSegment world (fun _ => .fin) 0x11 world.tcp.localSeq
    world.tcp.remoteSeq []).hasDelivered holds
  simp only [netTcpClose]
  split
  · generalize emitSegment _ _ _ _ _ _ = emitted at sent ⊢
    split <;> exact ⟨sent.1, sent.2.1, fun state => by cases state⟩
  · exact ⟨holds.1, holds.2.1, fun state => by cases state⟩

theorem SessionCalls.hasDelivered {world' : World κ σ} (calls : SessionCalls world world')
    {number : Nat} {delivered : List UInt8}
    (holds : HasDelivered number delivered world.tcp) :
    HasDelivered number delivered world'.tcp :=
  @SessionCalls.keeps _ _ (fun now => HasDelivered number delivered now.tcp) _ _ calls holds
    (fun now data good => (SameReceiver.netTcpSend now data).hasDelivered good)
    (fun _ good => netTcpClose_hasDelivered good) (fun _ _ _ _ good => good)

theorem SessionCalls.unheard {world' : World κ σ} (calls : SessionCalls world world')
    (holds : world.tcp.closeCallback = none) : world'.tcp.closeCallback = none := by
  refine @SessionCalls.keeps _ _ (fun now => now.tcp.closeCallback = none) _ _ calls holds
    (fun now data good => (SameReceiver.netTcpSend now data).closeCallback.trans good) ?_
    (fun _ _ _ _ good => good)
  intro now good
  have sent := (SameReceiver.emitSegment now (fun _ => .fin) 0x11 now.tcp.localSeq
    now.tcp.remoteSeq []).closeCallback.trans good
  simp only [netTcpClose]
  split
  · generalize emitSegment _ _ _ _ _ _ = emitted at sent ⊢
    split
    · exact sent
    · rfl
  · rfl

theorem countPayload_closeCallback (world : World κ σ) (payload : List UInt8) :
    (countPayload world payload).tcp.closeCallback = world.tcp.closeCallback := by
  by_cases listening : world.tcp.dataCallback.isSome = true
  · rw [countPayload_of_listening listening]
  · rw [countPayload_of_deaf listening]

theorem clearForClose_hasDelivered {number : Nat} {delivered : List UInt8}
    (holds : HasDelivered number delivered world.tcp) (clean : Bool) :
    HasDelivered number delivered (clearForClose world clean).tcp := by
  simp only [clearForClose, Tcp.noteClose]
  split <;> exact ⟨holds.1, holds.2.1, fun state => by cases state⟩

theorem countPayload_receiving (receiving : Receiving peers whole world.tcp)
    (connected : world.tcp.state ≠ .synSent) {payload : List UInt8}
    (next : world.tcp.dataCallback.isSome = true →
      payload <+: (peers world.tcp.past.length).stream.drop world.tcp.current.delivered.length) :
    Receiving peers whole (countPayload world payload).tcp := by
  have kept := receiving.records
  by_cases listening : world.tcp.dataCallback.isSome = true
  · rw [countPayload_of_listening listening]
    have alive : world.tcp.state ≠ .closed := fun closed => by
      simp [(receiving.closed closed).1] at listening
    have unclosed := receiving.unclosed alive
    exact {
      records := {
        past := kept.past
        current := by
          refine ⟨?_, fun _ closed => by simp [unclosed] at closed⟩
          obtain ⟨rest, parts⟩ := kept.current.1
          have following := next listening
          rw [← parts, List.drop_left] at following
          rw [← parts]
          exact (List.prefix_append_right_inj _).mpr following }
      connecting := fun state => absurd state connected
      position := fun _ _ _ => by
        simp only [receiving.position connected alive listening, List.length_append]
        rw [BitVec.ofNat_add, BitVec.add_assoc]
      unclosed := fun _ => unclosed
      closed := receiving.closed
      ready := receiving.ready }
  · rw [countPayload_of_deaf listening]
    exact {
      records := ⟨kept.past, kept.current⟩
      connecting := fun state => absurd state connected
      position := fun _ _ listens => absurd listens listening
      unclosed := receiving.unclosed
      closed := receiving.closed
      ready := receiving.ready }

include within

theorem stable_receiving : Stable callbacks fun now => Receiving peers whole now.tcp where
  connect := fun key connected now => (within.connect key connected now).receiving
  data := fun key bytes now => (within.data key bytes now).receiving
  close := fun key clean now => (within.close key clean now).receiving
  clear := fun _ receiving => receiving.clear
  abort := fun _ receiving => receiving.records.close fun _ unclean => by cases unclean
  acknowledge := fun now receiving => receiving.congr (SameReceiver.emitAck now)

theorem stable_hasDelivered (number : Nat) (delivered : List UInt8) :
    Stable callbacks fun now => HasDelivered number delivered now.tcp where
  connect := fun key connected now => (within.connect key connected now).hasDelivered
  data := fun key bytes now => (within.data key bytes now).hasDelivered
  close := fun key clean now => (within.close key clean now).hasDelivered
  clear := fun _ holds => ⟨holds.1, holds.2.1, fun state => by cases state⟩
  abort := fun _ holds => clearForClose_hasDelivered holds false
  acknowledge := fun now holds => (SameReceiver.emitAck now).hasDelivered holds

/-- The handshake puts the client at the start of the stream. -/
theorem inputSynSent_receiving (receiving : Receiving peers whole world.tcp)
    (connecting : world.tcp.state = .synSent) {segment : Segment} {offset : Nat}
    (sends : (peers world.tcp.past.length).Sends segment offset) :
    Receiving peers whole (inputSynSent callbacks world segment).tcp := by
  cases opens : segment.opens world.tcp with
  | false =>
      rw [inputSynSent_of_not_opens opens]
      exact receiving
  | true =>
  have syn : segment.hasSyn = true := by
    simp only [Segment.opens, Bool.and_eq_true, decide_eq_true_eq] at opens
    exact opens.1.1.2
  have empty := receiving.connecting connecting
  have alive : world.tcp.state ≠ .closed := by
    rw [connecting]
    exact fun same => by cases same
  obtain ⟨sequence, inside⟩ :
      segment.sequence = (peers world.tcp.past.length).initial ∧
        segment.payload <+: (peers world.tcp.past.length).stream := by
    cases sends with
    | syn _ sequence inside _ => exact ⟨sequence, inside⟩
    | data _ unsynced _ _ _ =>
        rw [syn] at unsynced
        cases unsynced
  have stable := @stable_receiving _ _ peers whole _ within
  refine stable.opening
    (stable.and (stable_hasDelivered within world.tcp.past.length [])) opens ⟨?_, ?_⟩ ?_
    fun _ both => both.1
  · simp only [openConnection, emitSegment_tcp]
    generalize (emitSegment _ _ _ _ _ _).1 = result
    exact {
      records := ⟨receiving.records.past, receiving.records.current.congr rfl rfl⟩
      connecting := fun state => by cases state
      position := fun _ _ _ => by
        simp [Tcp.note, sequence, empty]
      unclosed := fun _ => receiving.unclosed alive
      closed := fun state => by cases state
      ready := fun unready => absurd (receiving.ready unready) alive }
  · simp only [openConnection, emitSegment_tcp]
    exact ⟨rfl, empty, fun state => by cases state⟩
  · rintro - now ⟨before, number, nothing, connected⟩ -
    refine countPayload_receiving before connected fun _ => ?_
    rw [number, nothing]
    exact inside

theorem stable_unheard : Stable callbacks fun now => now.tcp.closeCallback = none where
  connect := fun key connected now => (within.connect key connected now).unheard
  data := fun key bytes now => (within.data key bytes now).unheard
  close := fun key clean now => (within.close key clean now).unheard
  clear := fun _ _ => rfl
  abort := fun _ _ => rfl
  acknowledge := fun now holds => (SameReceiver.emitAck now).closeCallback.trans holds

/-- When the close callback is told of a `FIN` in order, everything was delivered. -/
theorem finished_hasDelivered (receiving : Receiving peers whole world.tcp)
    (connected : world.tcp.state ≠ .synSent) {segment : Segment} {offset : Nat}
    (sends : (peers world.tcp.past.length).Sends segment offset)
    (inPlace : InPlace world.tcp segment offset)
    (inOrder : world.tcp.closeCallback.isSome = true → world.tcp.dataCallback.isSome = true ∧
      (segment.sequence = world.tcp.remoteSeq ∧ offset = world.tcp.current.delivered.length ∨
        offset + segment.payload.length = world.tcp.current.delivered.length))
    (fin : segment.hasFin = true)
    (told : (receivePayload callbacks (acknowledgePayload world segment)
      segment).tcp.closeCallback.isSome = true) :
    HasDelivered world.tcp.past.length (peers world.tcp.past.length).stream
      (receivePayload callbacks (acknowledgePayload world segment) segment).tcp := by
  have same := SameReceiver.acknowledgePayload world segment
  have last := sends.fin_last fin
  have got := receiving.records.current.1
  have heard : world.tcp.closeCallback.isSome = true := by
    by_contra unheard
    have none : (acknowledgePayload world segment).tcp.closeCallback = none := by
      rw [same.closeCallback]
      simpa using unheard
    simp only [receivePayload] at told
    split at told
    · have after := (stable_unheard within).deliverPayload
        (countPayload_closeCallback (acknowledgePayload world segment) segment.payload |>.trans none)
      simp [after] at told
    · simp [none] at told
  obtain ⟨listening, order⟩ := inOrder heard
  simp only [receivePayload, acknowledgePayload_remoteSeq]
  split
  · next taken =>
      have place := inPlace connected listening taken.1 taken.2
      refine (stable_hasDelivered within _ _).deliverPayload ?_
      rw [countPayload_of_listening (same.dataCallback ▸ listening)]
      refine ⟨congrArg List.length same.past, ?_, same.state ▸ connected⟩
      change (acknowledgePayload world segment).tcp.current.delivered ++ segment.payload = _
      rw [same.delivered]
      refine prefix_append_eq got ?_ ?_
      · rw [← place]
        exact sends.payload_prefix
      · rw [← place]
        exact last
  next skipped =>
  refine same.hasDelivered ⟨rfl, ?_, connected⟩
  refine got.eq_of_length ?_
  rcases order with ⟨next, place⟩ | place
  · have empty : segment.payload = [] := by
      by_contra payload
      exact skipped ⟨payload, next⟩
    rw [← last, empty, place]
    rfl
  · rw [← last, place]

/-- A `FIN` ends the connection; if it is in order, everything was delivered. -/
theorem inputOpen_receiving (receiving : Receiving peers whole world.tcp)
    (connected : world.tcp.state ≠ .synSent) {segment : Segment} {offset : Nat}
    (sends : (peers world.tcp.past.length).Sends segment offset)
    (inPlace : InPlace world.tcp segment offset)
    (inOrder : whole → FinInOrder world.tcp segment offset) :
    Receiving peers whole (inputOpen callbacks world segment).tcp := by
  have stable := @stable_receiving _ _ peers whole _ within
  have same := SameReceiver.acknowledgePayload world segment
  have acknowledged := receiving.congr same
  have counted (payload : segment.payload ≠ []) (next : segment.sequence = world.tcp.remoteSeq) :
      Receiving peers whole (countPayload (acknowledgePayload world segment) segment.payload).tcp := by
    refine countPayload_receiving acknowledged (same.state ▸ connected) fun listening => ?_
    rw [same.past, same.delivered,
      ← inPlace connected (same.dataCallback ▸ listening) payload next]
    exact sends.payload_prefix
  refine stable.inputOpen connected {
    opened := fun opens => by
      simp only [Segment.opens, Bool.and_eq_true, decide_eq_true_eq] at opens
      exact absurd opens.1.1.1.1 connected
    first := fun opens => by
      simp only [Segment.opens, Bool.and_eq_true, decide_eq_true_eq] at opens
      exact absurd opens.1.1.1.1 connected
    acknowledged := fun _ => acknowledged
    counted := fun _ => counted
    finished := fun _ fin before => stable.inputFin fun count => ?_ }
  refine Tcp.Records.close (before.recordsAdvanced count) fun wanted _ told => ?_
  have complete := finished_hasDelivered within receiving connected sends inPlace
    (inOrder wanted fin connected) fin told
  rw [← complete.1] at complete
  exact complete.2.1

theorem netTcpInput_receiving (receiving : Receiving peers whole world.tcp) (src dst : Ipv4)
    (bytes : List UInt8)
    (arrives : ∀ segment, acceptSegment world src dst bytes = some segment →
      segment.hasRst = false → ∃ offset,
        (peers world.tcp.past.length).Sends segment offset ∧
          InPlace world.tcp segment offset ∧
            (whole → FinInOrder world.tcp segment offset)) :
    Receiving peers whole (netTcpInput callbacks world src dst bytes).tcp := by
  simp only [netTcpInput]
  split
  · exact receiving
  next segment accepted =>
  split
  · exact (stable_receiving within).abortConnection receiving
  next reset =>
  rw [Bool.not_eq_true] at reset
  obtain ⟨offset, sends, inPlace, inOrder⟩ := arrives segment accepted reset
  split
  · next connecting => exact inputSynSent_receiving within receiving connecting sends
  · next connected =>
      exact inputOpen_receiving within receiving connected sends inPlace inOrder

theorem netTcpPoll_receiving (receiving : Receiving peers whole world.tcp) :
    Receiving peers whole (netTcpPoll callbacks world).tcp := by
  have counters (now : World κ σ) (pollTicks retries : Nat) :
      SameReceiver now.tcp { now.tcp with pollTicks, retries } :=
    ⟨rfl, rfl, rfl, rfl, rfl, rfl, rfl, rfl⟩
  refine (stable_receiving within).netTcpPoll receiving
    (fun now pollTicks retries good => good.congr (counters now pollTicks retries)) ?_
  intro _ pollTicks before
  exact @pollTransmit_keeps _ _ (fun now => Receiving peers whole now.tcp) _ before
    (fun _ => before.congr (SameReceiver.pollSyn _))
    (fun _ _ => before.congr (SameReceiver.pollPayload _))
    (fun _ _ => before.congr (SameReceiver.emitSegment _ _ _ _ _ _))

end Input

/-! ## Runs -/

/-- Every accepted segment comes from the peer of its connection, and what it brings is
in place. -/
def TcpEvent.Arrives (peers : Nat → Peer) (whole : Prop) (world : World κ σ) :
    TcpEvent κ σ → Prop
  | .input src dst bytes => ∀ segment, acceptSegment world src dst bytes = some segment →
      segment.hasRst = false → ∃ offset,
        (peers world.tcp.past.length).Sends segment offset ∧
          InPlace world.tcp segment offset ∧ (whole → FinInOrder world.tcp segment offset)
  | _ => True

theorem tcpAfter_receiving {peers : Nat → Peer} {whole : Prop} {callbacks : Callbacks κ σ}
    (within : callbacks.WithinSession) {world : World κ σ}
    (receiving : Receiving peers whole world.tcp) {event : TcpEvent κ σ}
    (arrives : event.Arrives peers whole world) :
    Receiving peers whole (tcpAfter callbacks world event).tcp := by
  cases event with
  | init => exact netTcpInit_receiving receiving
  | connect ip port key onData onClose =>
      exact netTcpConnect_receiving receiving ip port key onData onClose
  | send data => exact receiving.congr (SameReceiver.netTcpSend world data)
  | close => exact netTcpClose_receiving receiving
  | poll => exact netTcpPoll_receiving within receiving
  | input src dst bytes => exact netTcpInput_receiving within receiving src dst bytes arrives
  | other stack dns user => exact receiving

/-- Every accepted segment comes from the peer of its connection. -/
def TcpEvent.FromPeer (peers : Nat → Peer) (world : World κ σ) : TcpEvent κ σ → Prop
  | .input src dst bytes => ∀ segment, acceptSegment world src dst bytes = some segment →
      segment.hasRst = false → ∃ offset, (peers world.tcp.past.length).Sends segment offset
  | _ => True

/-- No accepted segment is a `SYN` with payload that comes after the handshake and has
the sequence number of the next byte. -/
def TcpEvent.SynUnrepeated (world : World κ σ) : TcpEvent κ σ → Prop
  | .input src dst bytes => ∀ segment, acceptSegment world src dst bytes = some segment →
      segment.hasRst = false → world.tcp.state ≠ .synSent → segment.hasSyn = true →
        segment.payload ≠ [] → segment.sequence ≠ world.tcp.remoteSeq
  | _ => True

/-- In a stream of less than 2^32 bytes, sequence numbers tell places apart. -/
theorem Peer.Sends.inPlace {peers : Nat → Peer} {whole : Prop} {tcp : Tcp κ}
    (receiving : Receiving peers whole tcp) (alive : tcp.state ≠ .closed)
    (short : (peers tcp.past.length).stream.length < 2 ^ 32) {segment : Segment} {offset : Nat}
    (sends : (peers tcp.past.length).Sends segment offset)
    (unrepeated : tcp.state ≠ .synSent → segment.hasSyn = true → segment.payload ≠ [] →
      segment.sequence ≠ tcp.remoteSeq) : InPlace tcp segment offset := by
  intro connected listening payload next
  have got := receiving.records.current.1.length_le
  have position := receiving.position connected alive listening
  cases sends with
  | syn syn _ _ _ => exact absurd next (unrepeated connected syn payload)
  | data _ _ sequence inside _ =>
  have nonempty := List.length_pos_iff.mpr payload
  have fits := inside.length_le
  rw [List.length_drop] at fits
  rw [sequence, position, BitVec.add_right_inj] at next
  have same := congrArg BitVec.toNat next
  simp only [BitVec.toNat_ofNat] at same
  omega

/-- At the end of a run in which everything that arrives is in place, the client knows
its place. -/
theorem run_receiving {peers : Nat → Peer} {whole : Prop} {callbacks : Callbacks κ σ}
    (within : callbacks.WithinSession) {start finish : World κ σ}
    {events : List (TcpEvent κ σ)} (fresh : start.tcp = Tcp.initial)
    {condition : World κ σ → TcpEvent κ σ → Prop}
    (arrives : ∀ world event, Receiving peers whole world.tcp → condition world event →
      event.Arrives peers whole world)
    (run : Run (fun world event world' => TcpStep callbacks world event world' ∧
      condition world event) start events finish) :
    Receiving peers whole finish.tcp := by
  refine @Run.invariant _ _ _ _ _ _ (fun world => Receiving peers whole world.tcp)
    (fun _ => True) ?_ run (fresh ▸ .fresh) (fun _ _ => trivial)
  rintro world event world' receiving - ⟨rfl, holds⟩
  exact tcpAfter_receiving within receiving (arrives world event receiving holds)

/-- What the data callback of a connection gets is a prefix of the stream of the peer,
whatever the network does, if no repeated `SYN` is taken for payload. -/
theorem tcp_delivers_prefix {peers : Nat → Peer} {callbacks : Callbacks κ σ}
    (within : callbacks.WithinSession)
    (short : ∀ number, (peers number).stream.length < 2 ^ 32) {start finish : World κ σ}
    {events : List (TcpEvent κ σ)} (fresh : start.tcp = Tcp.initial)
    (run : Run (fun world event world' => TcpStep callbacks world event world' ∧
      event.FromPeer peers world ∧ event.SynUnrepeated world) start events finish) :
    finish.tcp.Records fun number connection =>
      connection.delivered <+: (peers number).stream := by
  have receiving : Receiving peers False finish.tcp := by
    refine run_receiving within fresh ?_ run
    intro world event receiving holds
    cases event with
    | input src dst bytes =>
        intro segment accepted reset
        obtain ⟨offset, sends⟩ := holds.1 segment accepted reset
        exact ⟨offset, sends, sends.inPlace receiving (acceptSegment_alive accepted) (short _)
          (holds.2 segment accepted reset), False.elim⟩
    | _ => trivial
  exact ⟨fun number connection found => (receiving.records.past number connection found).1,
    receiving.records.current.1⟩

/-- A peer that sends zeros. -/
def zeroPeer (count : Nat) : Peer := ⟨1000, List.replicate count 0⟩

/-- A segment from 10.0.2.2 to the first connection of 10.0.2.15. -/
def peerSegment (flags : BitVec 8) (sequence : BitVec 32) (payload : List UInt8) :
    TcpEvent Unit Unit :=
  .input 0x0A000202 0x0A00020F (tcpSegment 0x0A000202 0x0A00020F 80 49152 flags sequence
    (initialSequence 49152 80 + 1) payload)

/-- The `SYN` of that peer, with the first byte of its stream. -/
def firstSegment : TcpEvent Unit Unit := peerSegment 0x12 1000 [0]

/-- A connection that has got some zeros. -/
structure GotZeros (count : Nat) (world : World Unit Unit) : Prop where
  ready : world.stack.ready = true
  ipAddr : world.stack.nic.ipAddr = 0x0A00020F
  initialized : world.tcp.initialized = true
  state : world.tcp.state = .established
  remoteIp : world.tcp.remoteIp = 0x0A000202
  remotePort : world.tcp.remotePort = 80
  localPort : world.tcp.localPort = 49152
  remoteSeq : world.tcp.remoteSeq = 1001 + BitVec.ofNat 32 count
  listening : world.tcp.dataCallback = some ()
  number : world.tcp.past.length = 1
  delivered : world.tcp.current.delivered = List.replicate count 0

theorem netStackResolveIpv4_ready {stack after : Stack} (ready : stack.ready = true)
    {ip : Ipv4} {mac : Option Mac} (resolved : netStackResolveIpv4 stack ip = (mac, after)) :
    after.ready = true ∧ after.nic.ipAddr = stack.nic.ipAddr := by
  simp only [netStackResolveIpv4, Stack.ensureReady, ready, ↓reduceIte] at resolved
  split at resolved
  · cases resolved
    exact ⟨ready, rfl⟩
  split at resolved
  · cases resolved
    exact ⟨ready, rfl⟩
  split at resolved
  · cases resolved
    exact ⟨ready, rfl⟩
  · cases resolved
    rw [(transmit_ready stack _).1, (transmit_ready stack _).2]
    exact ⟨ready, rfl⟩

/-- Sending does not change the address of the interface. -/
theorem netIpv4Send_ready {stack : Stack} (ready : stack.ready = true) (destination : Ipv4)
    (protocol : BitVec 8) (payload : List UInt8) :
    (netIpv4Send stack destination protocol payload).2.ready = true ∧
      (netIpv4Send stack destination protocol payload).2.nic.ipAddr = stack.nic.ipAddr := by
  simp only [netIpv4Send, Stack.ensureReady, ready, ↓reduceIte]
  split
  · exact ⟨ready, rfl⟩
  split
  · exact ⟨ready, rfl⟩
  split
  · exact ⟨ready, rfl⟩
  split
  · rw [(transmit_ready stack _).1, (transmit_ready stack _).2]
    exact ⟨ready, rfl⟩
  split
  · next resolved => exact netStackResolveIpv4_ready ready resolved
  · next mac after resolved =>
      rw [(transmit_ready after _).1, (transmit_ready after _).2]
      exact netStackResolveIpv4_ready ready resolved

theorem GotZeros.acceptSegment {count : Nat} {world : World Unit Unit}
    (got : GotZeros count world) {flags : BitVec 8} {sequence acknowledgement : BitVec 32}
    {payload : List UInt8} (fits : payload.length ≤ 1460) :
    Net.acceptSegment world 0x0A000202 0x0A00020F (tcpSegment 0x0A000202 0x0A00020F 80 49152
      flags sequence acknowledgement payload) =
      some ⟨sequence, acknowledgement, flags, payload⟩ := by
  rw [← got.remoteIp, ← got.ipAddr, ← got.remotePort, ← got.localPort]
  exact acceptSegment_tcpSegment got.initialized (by rw [got.state]; decide) fits

theorem acknowledgePayload_ports (world : World κ σ) (segment : Segment) :
    (acknowledgePayload world segment).stack = world.stack ∧
      (acknowledgePayload world segment).tcp.remoteIp = world.tcp.remoteIp ∧
      (acknowledgePayload world segment).tcp.remotePort = world.tcp.remotePort ∧
      (acknowledgePayload world segment).tcp.localPort = world.tcp.localPort := by
  unfold acknowledgePayload
  split <;> exact ⟨rfl, rfl, rfl, rfl⟩

theorem GotZeros.count {count : Nat} {world : World Unit Unit} (got : GotZeros count world) :
    GotZeros (count + 1) (emitAck (countPayload world [0])) := by
  have listening : world.tcp.dataCallback.isSome = true := by rw [got.listening]; rfl
  have counted := countPayload_of_listening listening [0]
  have stack : (countPayload world [0]).stack = world.stack := by
    simp only [countPayload]
    split <;> rfl
  have same := SameReceiver.emitAck (countPayload world [0])
  have ready := @netIpv4Send_ready (countPayload world [0]).stack (by rw [stack, got.ready])
  have noted := emitSegment_tcp (countPayload world [0]) (fun _ => .acknowledge) 0x10
    (countPayload world [0]).tcp.localSeq (countPayload world [0]).tcp.remoteSeq []
  obtain ⟨bytes, sent⟩ := emitSegment_stack (countPayload world [0]) (fun _ => .acknowledge) 0x10
    (countPayload world [0]).tcp.localSeq (countPayload world [0]).tcp.remoteSeq []
  unfold emitAck at same ⊢
  generalize emitSegment _ _ _ _ _ _ = emitted at same noted sent ⊢
  exact {
    ready := by rw [sent]; exact (ready _ _ _).1
    ipAddr := by rw [sent]; exact (ready _ _ _).2.trans (by rw [stack, got.ipAddr])
    initialized := same.initialized.trans (by rw [counted]; exact got.initialized)
    state := same.state.trans (by rw [counted]; exact got.state)
    remoteIp := by rw [noted, counted]; exact got.remoteIp
    remotePort := by rw [noted, counted]; exact got.remotePort
    localPort := by rw [noted, counted]; exact got.localPort
    remoteSeq := same.remoteSeq.trans (by
      rw [counted]
      simp only [got.remoteSeq, BitVec.ofNat_add, BitVec.add_assoc, List.length_singleton])
    listening := same.dataCallback.trans (by rw [counted]; exact got.listening)
    number := (congrArg List.length same.past).trans (by rw [counted]; exact got.number)
    delivered := same.delivered.trans (by
      rw [counted, List.replicate_succ']
      exact congrArg (· ++ [0]) got.delivered) }

/-- Any segment with the next sequence number and without `RST` and `FIN` brings another
zero, a repeated `SYN` too. -/
theorem GotZeros.next {count : Nat} {world : World Unit Unit} (got : GotZeros count world)
    {flags : BitVec 8} (plain : flags.getLsbD 2 = false ∧ flags.getLsbD 0 = false) :
    GotZeros (count + 1) (tcpAfter idleCallbacks world
      (peerSegment flags (1001 + BitVec.ofNat 32 count) [0])) := by
  simp only [tcpAfter, peerSegment, netTcpInput, @acceptSegment _ _ got _ _ _ [0] (by simp),
    Segment.hasRst, plain.1, Bool.false_eq_true, ↓reduceIte, got.state, inputOpen, reduceCtorEq,
    Segment.hasFin, plain.2, receivePayload, acknowledgePayload_remoteSeq, got.remoteSeq]
  have same := SameReceiver.acknowledgePayload world
    ⟨1001 + BitVec.ofNat 32 count, initialSequence 49152 80 + 1, flags, [0]⟩
  have ports := acknowledgePayload_ports world
    ⟨1001 + BitVec.ofNat 32 count, initialSequence 49152 80 + 1, flags, [0]⟩
  generalize acknowledgePayload world _ = now at same ports ⊢
  have kept : GotZeros count now := {
    ready := by rw [ports.1, got.ready]
    ipAddr := by rw [ports.1, got.ipAddr]
    initialized := same.initialized.trans got.initialized
    state := same.state.trans got.state
    remoteIp := ports.2.1.trans got.remoteIp
    remotePort := ports.2.2.1.trans got.remotePort
    localPort := ports.2.2.2.trans got.localPort
    remoteSeq := same.remoteSeq.trans got.remoteSeq
    listening := same.dataCallback.trans got.listening
    number := same.past ▸ got.number
    delivered := same.delivered.trans got.delivered }
  have delivered : deliverPayload idleCallbacks now [0] = emitAck (countPayload now [0]) := by
    simp only [deliverPayload]
    cases (countPayload now [0]).tcp.dataCallback <;> rfl
  have counted := kept.count
  simp only [ne_eq, List.cons_ne_self, not_false_eq_true, and_self, ↓reduceIte, delivered,
    counted.state, reduceCtorEq, decide_false, Bool.false_and, Bool.false_eq_true]
  exact counted

/-- The handshake that brings the first zero. -/
def openingEvents : List (TcpEvent Unit Unit) :=
  [.connect 0x0A000202 80 () (some ()) (some ()), .poll, firstSegment]

/-- Segments with one zero each, after the first. -/
def zeroEvents (count : Nat) : List (TcpEvent Unit Unit) :=
  (List.range count).map fun index =>
    peerSegment 0x10 (1001 + BitVec.ofNat 32 (index + 1)) [0]

/-- Steps that bring segments of a peer only. -/
def PeerStep (peer : Peer) (world : World Unit Unit) (event : TcpEvent Unit Unit)
    (world' : World Unit Unit) : Prop :=
  TcpStep idleCallbacks world event world' ∧ event.FromPeer (fun _ => peer) world

theorem zero_inside {count offset : Nat} (inside : offset < count) :
    [0] <+: (zeroPeer count).stream.drop offset := by
  obtain ⟨rest, rfl⟩ := Nat.exists_eq_add_of_lt inside
  simp only [zeroPeer, List.drop_replicate]
  rw [show offset + rest + 1 - offset = rest + 1 by omega, List.replicate_succ]
  exact ⟨List.replicate rest 0, rfl⟩

theorem opening_gotZeros : GotZeros 1 (tcpFinish idleCallbacks neighbourWorld openingEvents) := by
  refine ⟨?_, ?_, ?_, ?_, ?_, ?_, ?_, ?_, ?_, ?_, ?_⟩
  all_goals decide +kernel

theorem opening_meets {count : Nat} (nonempty : 0 < count) (front : List (TcpEvent Unit Unit))
    (event : TcpEvent Unit Unit) (back : List (TcpEvent Unit Unit))
    (split : openingEvents = front ++ event :: back) :
    event.FromPeer (fun _ => zeroPeer count) (tcpFinish idleCallbacks neighbourWorld front) ∧
      event.SynUnrepeated (tcpFinish idleCallbacks neighbourWorld front) := by
  rcases front with _ | ⟨one, _ | ⟨two, _ | ⟨three, more⟩⟩⟩
  · obtain ⟨rfl, -⟩ := List.cons.inj split
    exact ⟨trivial, trivial⟩
  · obtain ⟨rfl, -⟩ := List.cons.inj (List.cons.inj split).2
    exact ⟨trivial, trivial⟩
  · simp only [openingEvents, List.cons_append, List.nil_append, List.cons.injEq] at split
    obtain ⟨rfl, rfl, rfl, -⟩ := split
    have accepted : acceptSegment (tcpFinish idleCallbacks neighbourWorld
        [.connect 0x0A000202 80 () (some ()) (some ()), .poll]) 0x0A000202 0x0A00020F
        (tcpSegment 0x0A000202 0x0A00020F 80 49152 0x12 1000
          (initialSequence 49152 80 + 1) [0]) =
        some ⟨1000, initialSequence 49152 80 + 1, 0x12, [0]⟩ := by
      decide +kernel
    have connecting : (tcpFinish idleCallbacks neighbourWorld
        [.connect 0x0A000202 80 () (some ()) (some ()), .poll]).tcp.state = .synSent := by
      decide +kernel
    refine ⟨fun segment found _ => ?_, fun _ _ _ connected => absurd connecting connected⟩
    obtain rfl := Option.some.inj (accepted.symm.trans found)
    exact ⟨0, .syn rfl rfl (zero_inside nonempty) fun fin => by cases fin⟩
  · simp [openingEvents] at split

theorem opening_run {count : Nat} (nonempty : 0 < count) :
    Run (PeerStep (zeroPeer count)) neighbourWorld openingEvents
      (tcpFinish idleCallbacks neighbourWorld openingEvents) :=
  run_tcpFinish_of fun front event back split =>
    (opening_meets nonempty front event back split).1

theorem zero_run {total count : Nat} (inside : count < total) :
    ∃ finish, Run (PeerStep (zeroPeer total)) neighbourWorld
      (openingEvents ++ zeroEvents count) finish ∧ GotZeros (count + 1) finish := by
  induction count with
  | zero => exact ⟨_, opening_run inside, opening_gotZeros⟩
  | succ count ih =>
  obtain ⟨middle, run, got⟩ := ih (by omega)
  refine ⟨tcpAfter idleCallbacks middle
    (peerSegment 0x10 (1001 + BitVec.ofNat 32 (count + 1)) [0]), ?_, got.next ⟨rfl, rfl⟩⟩
  rw [zeroEvents, List.range_succ, List.map_append, ← List.append_assoc]
  refine run.next ⟨rfl, ?_⟩
  intro segment found _
  obtain rfl := Option.some.inj ((got.acceptSegment (by simp)).symm.trans found)
  have unflagged : (0x10 : BitVec 8).getLsbD 1 = false ∧ (0x10 : BitVec 8).getLsbD 0 = false :=
    by decide
  refine ⟨count + 1, .data (count + 1) unflagged.1 rfl (zero_inside inside) fun fin => ?_⟩
  exact absurd (fin.symm.trans unflagged.2) (by decide)

/-- After a stream of 2^32 - 1 bytes the sequence numbers have come round to the `SYN`,
and its repetition is delivered once more. -/
theorem repeated_syn_delivered {total : Nat} (around : total + 1 = 2 ^ 32) :
    (zeroPeer total).stream.length < 2 ^ 32 ∧
      ∃ finish, Run (PeerStep (zeroPeer total)) neighbourWorld
          (openingEvents ++ zeroEvents (total - 1) ++ [firstSegment]) finish ∧
        ¬ finish.tcp.Records fun _ connection =>
          connection.delivered <+: (zeroPeer total).stream := by
  have length : (zeroPeer total).stream.length = total := List.length_replicate
  refine ⟨by omega, ?_⟩
  obtain ⟨middle, run, got⟩ := @zero_run total (total - 1) (by omega)
  rw [show total - 1 + 1 = total by omega] at got
  have number : 1001 + BitVec.ofNat 32 total = (1000 : BitVec 32) := by
    apply BitVec.eq_of_toNat_eq
    rw [BitVec.toNat_add, BitVec.toNat_ofNat, show (1001 : BitVec 32).toNat = 1001 from rfl,
      show (1000 : BitVec 32).toNat = 1000 from rfl]
    omega
  have more := @GotZeros.next _ _ got 0x12 ⟨rfl, rfl⟩
  rw [number] at more
  refine ⟨tcpAfter idleCallbacks middle firstSegment, run.next ⟨rfl, ?_⟩, ?_⟩
  · intro segment found _
    obtain rfl := Option.some.inj ((got.acceptSegment (by simp)).symm.trans found)
    exact ⟨0, .syn rfl rfl (@zero_inside total 0 (by omega)) fun fin => by cases fin⟩
  · intro records
    have fits := records.current.length_le
    rw [length] at fits
    have all : (tcpAfter idleCallbacks middle firstSegment).tcp.current.delivered.length =
        total + 1 := by
      rw [show firstSegment = peerSegment 0x12 1000 [0] from rfl, more.delivered,
        List.length_replicate]
    omega

/-- The same at the stream of 2^32 - 1 zeros. -/
theorem tcp_repeated_syn_delivered :
    (zeroPeer 4294967295).stream.length < 2 ^ 32 ∧
      ∃ finish, Run (PeerStep (zeroPeer 4294967295)) neighbourWorld
          (openingEvents ++ zeroEvents (4294967295 - 1) ++ [firstSegment]) finish ∧
        ¬ finish.tcp.Records fun _ connection =>
          connection.delivered <+: (zeroPeer 4294967295).stream :=
  repeated_syn_delivered (by norm_num)

/-- The general statement at the handshake alone. -/
theorem tcp_delivers_prefix_opening :
    (tcpFinish idleCallbacks neighbourWorld openingEvents).tcp.current.delivered = [0] ∧
      (tcpFinish idleCallbacks neighbourWorld openingEvents).tcp.Records
        fun _ connection => connection.delivered <+: (zeroPeer 3).stream := by
  refine ⟨by decide +kernel, ?_⟩
  exact tcp_delivers_prefix idleCallbacks_withinSession (fun _ => by decide) rfl
    (run_tcpFinish_of (opening_meets (by decide)))

end Charis.Net
