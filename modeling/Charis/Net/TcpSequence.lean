import Charis.Net.TcpRules

/-!
# The sequence space of a connection

A connection is to number its `SYN` with the initial sequence number and its payload
bytes consecutively from the next one on.  The client gets this right as long as the
answer to its `SYN` is not accepted after the transmission of the `SYN` was
confirmed: then the `SYN` has been counted twice.
-/

namespace Charis.Net

open Charis.Lib

variable {κ σ : Type}

/-- A segment has the sequence number that its place in the connection calls for. -/
def Emission.Numbered (emission : Emission) (connection : Connection) : Prop :=
  match emission.kind with
  | .syn => emission.sequence = connection.initialSeq
  | .handshake => emission.sequence = connection.initialSeq + 1
  | .payload offset =>
      emission.sequence = connection.initialSeq + 1 + BitVec.ofNat 32 offset ∧
        emission.payload <+: connection.accepted.drop offset
  | _ => True

instance (emission : Emission) (connection : Connection) :
    Decidable (emission.Numbered connection) :=
  match emission with
  | ⟨.syn, _, _, _, _⟩ => inferInstanceAs (Decidable (_ = _))
  | ⟨.handshake, _, _, _, _⟩ => inferInstanceAs (Decidable (_ = _))
  | ⟨.payload _, _, _, _, _⟩ => inferInstanceAs (Decidable (_ ∧ _))
  | ⟨.refused, _, _, _, _⟩ | ⟨.acknowledge, _, _, _, _⟩ | ⟨.fin, _, _, _, _⟩ =>
      inferInstanceAs (Decidable True)

def Connection.Numbered (connection : Connection) : Prop :=
  ∀ emission ∈ connection.emissions, emission.Numbered connection

instance (connection : Connection) : Decidable connection.Numbered :=
  inferInstanceAs (Decidable (∀ emission ∈ connection.emissions, emission.Numbered connection))

/-- All connections have used one contiguous sequence space each. -/
def Tcp.Numbered (tcp : Tcp κ) : Prop :=
  ∀ connection ∈ tcp.past ++ [tcp.current], connection.Numbered

instance (tcp : Tcp κ) : Decidable tcp.Numbered :=
  inferInstanceAs (Decidable (∀ connection ∈ tcp.past ++ [tcp.current], connection.Numbered))

theorem Connection.Numbered.accept {connection : Connection} (numbered : connection.Numbered)
    (data : List UInt8) :
    Connection.Numbered { connection with accepted := connection.accepted ++ data } := by
  intro emission member
  have before := numbered emission member
  simp only [Emission.Numbered] at before ⊢
  split at before
  · exact before
  · exact before
  · next offset _ =>
      refine ⟨before.1, before.2.trans ?_⟩
      rw [List.drop_append]
      exact List.prefix_append _ _
  · trivial

theorem Connection.Numbered.emit {connection : Connection} (numbered : connection.Numbered)
    {emission : Emission} (next : emission.Numbered connection) :
    Connection.Numbered
      { connection with emissions := connection.emissions ++ [emission] } := by
  intro query member
  rcases List.mem_append.mp member with old | new
  · exact numbered query old
  · rw [List.mem_singleton] at new
    subst new
    exact next

theorem Tcp.numbered_iff (tcp : Tcp κ) :
    tcp.Numbered ↔ (∀ connection ∈ tcp.past, connection.Numbered) ∧ tcp.current.Numbered := by
  simp only [Tcp.Numbered, List.forall_mem_append, List.forall_mem_singleton]

theorem Tcp.Numbered.received {tcp : Tcp κ} (numbered : tcp.Numbered) (delivered : List UInt8)
    (closes : List Bool) :
    Tcp.Numbered { tcp with current := { tcp.current with delivered, closes } } := by
  rw [Tcp.numbered_iff] at numbered ⊢
  exact ⟨numbered.1, numbered.2⟩

/-- The numbers that the client holds agree with the record of the connection. -/
structure Sequenced (tcp : Tcp κ) : Prop where
  numbered : tcp.Numbered
  initial : tcp.state ≠ .closed → tcp.initialSeq = tcp.current.initialSeq
  connecting : tcp.state = .synSent →
    tcp.localSeq = tcp.initialSeq + (if tcp.synTransmitted then 1 else 0) ∧
      tcp.current.accepted = [] ∧ tcp.txPending = false
  established : tcp.state = .established →
    tcp.localSeq = tcp.initialSeq + 1 +
      BitVec.ofNat 32 (tcp.current.accepted.length - tcp.unsent)
  pending : tcp.state ≠ .closed → tcp.txPending = true →
    tcp.txPayload.length ≤ tcp.current.accepted.length ∧
      tcp.txSequence = tcp.initialSeq + 1 +
        BitVec.ofNat 32 (tcp.current.accepted.length - tcp.txPayload.length) ∧
      tcp.txPayload =
        tcp.current.accepted.drop (tcp.current.accepted.length - tcp.txPayload.length)

namespace Sequenced

variable {tcp : Tcp κ} (sequenced : Sequenced tcp)

include sequenced

theorem note {emission : Emission} (next : emission.Numbered tcp.current) :
    Sequenced (tcp.note emission) where
  numbered := by
    have before := tcp.numbered_iff.mp sequenced.numbered
    exact (tcp.note emission).numbered_iff.mpr ⟨before.1, before.2.emit next⟩
  initial := sequenced.initial
  connecting := sequenced.connecting
  established := sequenced.established
  pending := sequenced.pending

theorem clear : Sequenced (clearConnection tcp) where
  numbered := sequenced.numbered
  initial := fun alive => absurd rfl alive
  connecting := fun state => by cases state
  established := fun state => by cases state
  pending := fun alive => absurd rfl alive

theorem clearNoted (clean : Bool) : Sequenced (clearConnection (tcp.noteClose clean)) := by
  unfold Tcp.noteClose
  split
  · exact {
      numbered := sequenced.numbered.received _ _
      initial := fun alive => absurd rfl alive
      connecting := fun state => by cases state
      established := fun state => by cases state
      pending := fun alive => absurd rfl alive }
  · exact sequenced.clear

theorem received (remoteSeq : BitVec 32) (delivered : List UInt8) :
    Sequenced { tcp with remoteSeq, current := { tcp.current with delivered } } :=
  ⟨sequenced.numbered.received _ _, sequenced.initial, sequenced.connecting, sequenced.established,
    sequenced.pending⟩

theorem counters (pollTicks retries : Nat) : Sequenced { tcp with pollTicks, retries } :=
  ⟨sequenced.numbered, sequenced.initial, sequenced.connecting, sequenced.established,
    sequenced.pending⟩

end Sequenced

section Calls

variable {world : World κ σ}

theorem netTcpInit_sequenced (sequenced : Sequenced world.tcp) :
    Sequenced (netTcpInit world).tcp := by
  unfold netTcpInit
  split
  · exact sequenced
  · exact {
      numbered := sequenced.numbered
      initial := fun alive => absurd rfl alive
      connecting := fun state => by cases state
      established := fun state => by cases state
      pending := fun alive => absurd rfl alive }

theorem netTcpConnect_sequenced (sequenced : Sequenced world.tcp) (ip : Ipv4)
    (port : BitVec 16) (key : κ) (onData onClose : Option κ) :
    Sequenced (netTcpConnect world ip port key onData onClose).2.tcp := by
  have ready := netTcpInit_sequenced sequenced
  simp only [netTcpConnect]
  split
  · exact ready
  split
  · exact ready
  · exact {
      numbered := by
        rw [Tcp.numbered_iff]
        exact ⟨ready.numbered, fun emission member => by cases member⟩
      initial := fun _ => rfl
      connecting := fun _ => ⟨by simp, rfl, rfl⟩
      established := fun state => by cases state
      pending := fun _ pending => by cases pending }

theorem netTcpSend_sequenced (sequenced : Sequenced world.tcp) (data : List UInt8) :
    Sequenced (netTcpSend world data).2.tcp := by
  simp only [netTcpSend]
  split
  · exact sequenced
  next allowed =>
  simp only [not_or, not_not] at allowed
  split
  · exact sequenced
  next idle =>
  rw [Bool.not_eq_true] at idle
  have alive : world.tcp.state ≠ .closed := by
    rw [allowed.1]
    exact fun same => by cases same
  have initial := sequenced.initial alive
  have number := sequenced.established allowed.1
  simp only [Tcp.unsent, idle, Bool.false_and, Bool.false_eq_true, ↓reduceIte,
    Nat.sub_zero] at number
  have before := world.tcp.numbered_iff.mp sequenced.numbered
  simp only [emitSegment_tcp]
  generalize (emitSegment _ _ _ _ _ _).1 = result
  -- the record after the bytes were accepted
  have accepted (notFailed : result ≠ .failed) : Connection.Numbered
      { world.tcp.current with
        accepted := world.tcp.current.accepted ++ data
        emissions := world.tcp.current.emissions ++
          [⟨.payload world.tcp.current.accepted.length, world.tcp.localSeq,
            world.tcp.remoteSeq, data, result⟩] } := by
    apply (before.2.accept data).emit
    refine ⟨?_, ?_⟩
    · rw [number, initial]
    · simp
  cases result with
  | done bytes =>
      exact {
        numbered := by
          rw [Tcp.numbered_iff]
          exact ⟨before.1, accepted (by simp)⟩
        initial := sequenced.initial
        connecting := fun state => by
          rw [show world.tcp.state = .synSent from state] at allowed
          cases allowed.1
        established := fun _ => by
          simp only [Tcp.unsent, Tcp.note, number, Bool.not_true, Bool.and_false,
            Bool.false_eq_true, ↓reduceIte, List.length_append, Nat.sub_zero]
          rw [BitVec.ofNat_add, BitVec.add_assoc]
        pending := fun _ _ => by
          simp [Tcp.note, number] }
  | resolving =>
      exact {
        numbered := by
          rw [Tcp.numbered_iff]
          exact ⟨before.1, accepted (by simp)⟩
        initial := sequenced.initial
        connecting := fun state => by
          rw [show world.tcp.state = .synSent from state] at allowed
          cases allowed.1
        established := fun _ => by
          simp [Tcp.unsent, Tcp.note, number]
        pending := fun _ _ => by
          simp [Tcp.note, number] }
  | failed =>
  exact {
    numbered := by
      rw [Tcp.numbered_iff]
      exact ⟨before.1, before.2.emit trivial⟩
    initial := sequenced.initial
    connecting := fun state => by
      rw [show world.tcp.state = .synSent from state] at allowed
      cases allowed.1
    established := fun _ => by
      simp [Tcp.unsent, Tcp.note, number]
    pending := fun _ pending => by cases pending }

theorem netTcpClose_sequenced (sequenced : Sequenced world.tcp) :
    Sequenced (netTcpClose world).tcp := by
  simp only [netTcpClose]
  split
  case isFalse => exact sequenced.clear
  case isTrue opened =>
  generalize emitted : emitSegment _ _ _ _ _ _ = sent
  have record : sent.2.tcp = world.tcp.note
      ⟨.fin, world.tcp.localSeq, world.tcp.remoteSeq, [], sent.1⟩ := by
    rw [← emitted, emitSegment_tcp]
  have noted : Sequenced sent.2.tcp := by
    rw [record]
    exact sequenced.note trivial
  have alive : sent.2.tcp.state ≠ .closed := by
    simp only [record, Tcp.note, opened]
    exact fun same => by cases same
  split
  · exact {
      numbered := noted.numbered
      initial := fun _ => noted.initial alive
      connecting := fun state => by cases state
      established := fun state => by cases state
      pending := fun _ => noted.pending alive }
  · exact noted.clear

end Calls

/-- What a user of the network code can do: call the functions of the TCP client and
whatever does not concern it. -/
inductive ApiCalls (world : World κ σ) : World κ σ → Prop
  | refl : ApiCalls world world
  | connect {middle : World κ σ} (ip : Ipv4) (port : BitVec 16) (key : κ)
      (onData onClose : Option κ) :
      ApiCalls world middle →
      ApiCalls world (netTcpConnect middle ip port key onData onClose).2
  | send {middle : World κ σ} (data : List UInt8) :
      ApiCalls world middle → ApiCalls world (netTcpSend middle data).2
  | close {middle : World κ σ} :
      ApiCalls world middle → ApiCalls world (netTcpClose middle)
  | other {middle : World κ σ} (stack : Stack) (dns : Dns κ) (user : σ) :
      ApiCalls world middle → ApiCalls world { middle with stack, dns, user }

/-- The callbacks of the TCP client reach it through its functions only. -/
structure Callbacks.ThroughApi (callbacks : Callbacks κ σ) : Prop where
  connect : ∀ key connected world,
    ApiCalls world (callbacks.tcpConnect key connected world)
  data : ∀ key bytes world, ApiCalls world (callbacks.tcpData key bytes world)
  close : ∀ key clean world, ApiCalls world (callbacks.tcpClose key clean world)

theorem ApiCalls.sequenced {world world' : World κ σ} (calls : ApiCalls world world')
    (sequenced : Sequenced world.tcp) : Sequenced world'.tcp := by
  induction calls with
  | refl => exact sequenced
  | connect ip port key onData onClose _ ih =>
      exact netTcpConnect_sequenced ih ip port key onData onClose
  | send data _ ih => exact netTcpSend_sequenced ih data
  | close _ ih => exact netTcpClose_sequenced ih
  | other stack dns user _ ih => exact ih

/-! ## Segments and polling -/

section Input

variable {callbacks : Callbacks κ σ} (through : callbacks.ThroughApi) {world : World κ σ}

theorem emitAck_sequenced (sequenced : Sequenced world.tcp) :
    Sequenced (emitAck world).tcp := by
  rw [emitAck, emitSegment_tcp]
  exact sequenced.note trivial

theorem emitFin_sequenced (sequenced : Sequenced world.tcp) (sequence : BitVec 32) :
    Sequenced
      (emitSegment world (fun _ => .fin) 0x11 sequence world.tcp.remoteSeq []).2.tcp := by
  rw [emitSegment_tcp]
  exact sequenced.note trivial

theorem advanceRemote_sequenced (sequenced : Sequenced world.tcp) (count : BitVec 32) :
    Sequenced (advanceRemote world count).tcp :=
  sequenced.received _ world.tcp.current.delivered

theorem countPayload_sequenced (sequenced : Sequenced world.tcp) (payload : List UInt8) :
    Sequenced (countPayload world payload).tcp := by
  simp only [countPayload]
  split
  · exact sequenced.received _ _
  · exact sequenced.received _ world.tcp.current.delivered

theorem openConnection_sequenced (sequenced : Sequenced world.tcp) {segment : Segment}
    (opens : segment.opens world.tcp = true) (first : world.tcp.synTransmitted = false) :
    Sequenced (openConnection world segment).tcp := by
  have connecting : world.tcp.state = .synSent := by
    simp only [Segment.opens, Bool.and_eq_true, decide_eq_true_eq] at opens
    exact opens.1.1.1.1
  have alive : world.tcp.state ≠ .closed := by
    rw [connecting]
    exact fun same => by cases same
  have initial := sequenced.initial alive
  obtain ⟨number, empty, idle⟩ := sequenced.connecting connecting
  simp only [first, Bool.false_eq_true, ↓reduceIte] at number
  replace number : world.tcp.localSeq = world.tcp.initialSeq := by simpa using number
  have opened : Sequenced { world.tcp with
      remoteSeq := segment.sequence + 1
      localSeq := world.tcp.localSeq + 1
      state := .established } := {
    numbered := sequenced.numbered
    initial := fun _ => initial
    connecting := fun state => by cases state
    established := fun _ => by
      simp [number, empty, Tcp.unsent, idle]
    pending := fun _ pending => by
      rw [show world.tcp.txPending = true from pending] at idle
      cases idle }
  simp only [openConnection, emitSegment_tcp]
  generalize (emitSegment _ _ _ _ _ _).1 = result
  have handshake := @opened.note _ _
    ⟨.handshake, world.tcp.localSeq + 1, segment.sequence + 1, [], result⟩ (by
      change world.tcp.localSeq + 1 = world.tcp.current.initialSeq + 1
      rw [number, initial])
  exact ⟨handshake.numbered, handshake.initial, handshake.connecting, handshake.established,
    handshake.pending⟩

theorem acknowledgePayload_sequenced (sequenced : Sequenced world.tcp)
    (connected : world.tcp.state ≠ .synSent) (segment : Segment) :
    Sequenced (acknowledgePayload world segment).tcp := by
  simp only [acknowledgePayload]
  split
  · next seen =>
      simp only [Bool.and_eq_true] at seen
      exact {
        numbered := sequenced.numbered
        initial := sequenced.initial
        connecting := fun state => absurd state connected
        established := fun state => by
          have number := sequenced.established state
          simp only [Tcp.unsent, seen.1.2, Bool.not_true, Bool.and_false,
            Bool.false_eq_true, ↓reduceIte] at number
          simpa [Tcp.unsent] using number
        pending := fun _ pending => by cases pending }
  · exact sequenced

/-- The `SYN` is sent with the initial sequence number, and counted once it is sent. -/
theorem pollSyn_sequenced (sequenced : Sequenced world.tcp)
    (connecting : world.tcp.state = .synSent) : Sequenced (pollSyn world).2.tcp := by
  have alive : world.tcp.state ≠ .closed := by
    rw [connecting]
    exact fun same => by cases same
  obtain ⟨number, empty, idle⟩ := sequenced.connecting connecting
  simp only [pollSyn]
  generalize emitted : emitSegment _ _ _ _ _ _ = sent
  have record : sent.2.tcp = world.tcp.note
      ⟨.syn, world.tcp.initialSeq, 0, [], sent.1⟩ := by
    rw [← emitted, emitSegment_tcp]
  have noted : Sequenced sent.2.tcp := by
    rw [record]
    exact sequenced.note (sequenced.initial alive)
  split
  · exact {
      numbered := noted.numbered
      initial := noted.initial
      connecting := fun _ => by
        simp only [record, Tcp.note]
        exact ⟨rfl, empty, idle⟩
      established := fun state => by
        simp only [record, Tcp.note, connecting] at state
        cases state
      pending := noted.pending }
  · exact noted

/-- The pending payload is sent with its own number, the first time and again. -/
theorem pollPayload_sequenced (sequenced : Sequenced world.tcp)
    (alive : world.tcp.state ≠ .closed) (connected : world.tcp.state ≠ .synSent)
    (pending : world.tcp.txPending = true) : Sequenced (pollPayload world).2.tcp := by
  obtain ⟨fits, number, tail⟩ := sequenced.pending alive pending
  simp only [pollPayload]
  generalize emitted : emitSegment _ _ _ _ _ _ = sent
  have record : sent.2.tcp = world.tcp.note
      ⟨.payload (world.tcp.current.accepted.length - world.tcp.txPayload.length),
        world.tcp.txSequence, world.tcp.remoteSeq, world.tcp.txPayload, sent.1⟩ := by
    rw [← emitted, emitSegment_tcp]
  have noted : Sequenced sent.2.tcp := by
    rw [record]
    refine sequenced.note ⟨by rw [number, sequenced.initial alive], ?_⟩
    rw [← tail]
  split
  · exact {
      numbered := noted.numbered
      initial := noted.initial
      connecting := fun state => by
        simp only [record, Tcp.note] at state
        exact absurd state connected
      established := fun _ => by
        simp only [Tcp.unsent, record, Tcp.note, number, Bool.not_true, Bool.and_false,
          Bool.false_eq_true, ↓reduceIte, Nat.sub_zero]
        rw [BitVec.add_assoc _ (BitVec.ofNat _ _), ← BitVec.ofNat_add,
          Nat.sub_add_cancel fits]
      pending := noted.pending }
  · exact noted

include through

theorem stable_sequenced : Stable callbacks fun world => Sequenced world.tcp where
  connect := fun key connected world => (through.connect key connected world).sequenced
  data := fun key bytes world => (through.data key bytes world).sequenced
  close := fun key clean world => (through.close key clean world).sequenced
  clear := fun _ sequenced => sequenced.clear
  abort := fun _ sequenced => sequenced.clearNoted false
  acknowledge := fun _ sequenced => emitAck_sequenced sequenced

theorem netTcpInput_sequenced (sequenced : Sequenced world.tcp) (src dst : Ipv4)
    (bytes : List UInt8)
    (first : ∀ segment, acceptSegment world src dst bytes = some segment →
      segment.opens world.tcp = true → world.tcp.synTransmitted = false) :
    Sequenced (netTcpInput callbacks world src dst bytes).tcp := by
  refine (stable_sequenced through).netTcpInput sequenced src dst bytes ?_
  intro segment accepted _
  exact {
    opened := fun opens => openConnection_sequenced sequenced opens (first segment accepted opens)
    first := fun _ _ _ before _ => countPayload_sequenced before _
    acknowledged := fun connected => acknowledgePayload_sequenced sequenced connected segment
    counted := fun connected _ _ =>
      countPayload_sequenced (acknowledgePayload_sequenced sequenced connected segment) _
    finished := fun _ _ before => (stable_sequenced through).inputFin fun _ =>
      (emitAck_sequenced (advanceRemote_sequenced before _)).clearNoted true }

theorem netTcpPoll_sequenced (sequenced : Sequenced world.tcp) :
    Sequenced (netTcpPoll callbacks world).tcp := by
  refine (stable_sequenced through).netTcpPoll sequenced
    (fun _ pollTicks retries good => good.counters pollTicks retries) ?_
  intro alive pollTicks before
  exact @pollTransmit_keeps _ _ (fun now => Sequenced now.tcp) _ before
    (fun connecting => pollSyn_sequenced before connecting)
    (fun connected pending => pollPayload_sequenced before alive connected pending)
    (fun _ _ => emitFin_sequenced before _)

end Input

/-! ## The record only grows -/

/-- A segment in the record of a connection with the given initial number. -/
def Tcp.Recorded (tcp : Tcp κ) (initial : BitVec 32) (emission : Emission) : Prop :=
  ∃ connection ∈ tcp.past ++ [tcp.current],
    connection.initialSeq = initial ∧ emission ∈ connection.emissions

/-- Nothing is lost from the record. -/
def Grows (before after : Tcp κ) : Prop :=
  ∀ initial emission, before.Recorded initial emission → after.Recorded initial emission

theorem Grows.trans {first second third : Tcp κ} (early : Grows first second)
    (late : Grows second third) : Grows first third :=
  fun initial emission recorded => late initial emission (early initial emission recorded)

/-- Steps that stay with the current connection. -/
theorem Grows.current {before after : Tcp κ} (past : after.past = before.past)
    (initial : after.current.initialSeq = before.current.initialSeq)
    (more : before.current.emissions ⊆ after.current.emissions) : Grows before after := by
  rintro number emission ⟨connection, member, same, recorded⟩
  rcases List.mem_append.mp member with old | current
  · exact ⟨connection, List.mem_append_left _ (past ▸ old), same, recorded⟩
  · rw [List.mem_singleton] at current
    subst current
    exact ⟨after.current, by simp, initial.trans same, more recorded⟩

theorem Grows.refl (tcp : Tcp κ) : Grows tcp tcp := fun _ _ recorded => recorded

section Grows

variable {callbacks : Callbacks κ σ} (through : callbacks.ThroughApi) {world : World κ σ}

theorem clearConnection_grows (tcp : Tcp κ) : Grows tcp (clearConnection tcp) :=
  .current rfl rfl (List.Subset.refl _)

theorem emitSegment_grows (world : World κ σ) (kind : Sent → SegmentKind) (flags : BitVec 8)
    (sequence acknowledgement : BitVec 32) (payload : List UInt8) :
    Grows world.tcp
      (emitSegment world kind flags sequence acknowledgement payload).2.tcp := by
  rw [emitSegment_tcp]
  exact .current rfl rfl (List.subset_append_left _ _)

theorem emitAck_grows (world : World κ σ) : Grows world.tcp (emitAck world).tcp :=
  emitSegment_grows world _ _ _ _ _

theorem advanceRemote_grows (world : World κ σ) (count : BitVec 32) :
    Grows world.tcp (advanceRemote world count).tcp :=
  .current rfl rfl (List.Subset.refl _)

theorem netTcpInit_grows (world : World κ σ) : Grows world.tcp (netTcpInit world).tcp := by
  unfold netTcpInit
  split
  · exact .refl _
  · exact .current rfl rfl (List.Subset.refl _)

theorem netTcpConnect_grows (world : World κ σ) (ip : Ipv4) (port : BitVec 16) (key : κ)
    (onData onClose : Option κ) :
    Grows world.tcp (netTcpConnect world ip port key onData onClose).2.tcp := by
  refine (netTcpInit_grows world).trans ?_
  simp only [netTcpConnect]
  split
  · exact .refl _
  split
  · exact .refl _
  · rintro initial emission ⟨connection, member, same, recorded⟩
    exact ⟨connection, List.mem_append_left _ member, same, recorded⟩

theorem netTcpSend_grows (world : World κ σ) (data : List UInt8) :
    Grows world.tcp (netTcpSend world data).2.tcp := by
  simp only [netTcpSend]
  split
  · exact .refl _
  split
  · exact .refl _
  · simp only [emitSegment_tcp]
    generalize (emitSegment _ _ _ _ _ _).1 = result
    cases result <;> exact .current rfl rfl (List.subset_append_left _ _)

theorem netTcpClose_grows (world : World κ σ) :
    Grows world.tcp (netTcpClose world).tcp := by
  simp only [netTcpClose]
  split
  · have sent := emitSegment_grows world (fun _ => .fin) 0x11 world.tcp.localSeq
      world.tcp.remoteSeq []
    split
    · exact sent.trans (.current rfl rfl (List.Subset.refl _))
    · exact sent.trans (clearConnection_grows _)
  · exact clearConnection_grows _

theorem ApiCalls.grows {world' : World κ σ} (calls : ApiCalls world world') :
    Grows world.tcp world'.tcp := by
  induction calls with
  | refl => exact .refl _
  | connect ip port key onData onClose _ ih =>
      exact ih.trans (netTcpConnect_grows _ ip port key onData onClose)
  | send data _ ih => exact ih.trans (netTcpSend_grows _ data)
  | close _ ih => exact ih.trans (netTcpClose_grows _)
  | other stack dns user _ ih => exact ih

theorem openConnection_grows (world : World κ σ) (segment : Segment) :
    Grows world.tcp (openConnection world segment).tcp := by
  simp only [openConnection, emitSegment_tcp]
  exact .current rfl rfl (List.subset_append_left _ _)

theorem acknowledgePayload_grows (world : World κ σ) (segment : Segment) :
    Grows world.tcp (acknowledgePayload world segment).tcp := by
  simp only [acknowledgePayload]
  split
  · exact .current rfl rfl (List.Subset.refl _)
  · exact .refl _

theorem pollSyn_grows (world : World κ σ) : Grows world.tcp (pollSyn world).2.tcp := by
  have sent := emitSegment_grows world (fun _ => .syn) 0x02 world.tcp.initialSeq 0 []
  simp only [pollSyn]
  generalize emitSegment _ _ _ _ _ _ = emitted at sent ⊢
  split
  · exact sent.trans (.current rfl rfl (List.Subset.refl _))
  · exact sent

theorem pollPayload_grows (world : World κ σ) :
    Grows world.tcp (pollPayload world).2.tcp := by
  have sent := emitSegment_grows world
    (fun _ => .payload (world.tcp.current.accepted.length - world.tcp.txPayload.length)) 0x18
    world.tcp.txSequence world.tcp.remoteSeq world.tcp.txPayload
  simp only [pollPayload]
  generalize emitSegment _ _ _ _ _ _ = emitted at sent ⊢
  split
  · exact sent.trans (.current rfl rfl (List.Subset.refl _))
  · exact sent

theorem countPayload_grows (world : World κ σ) (payload : List UInt8) :
    Grows world.tcp (countPayload world payload).tcp := by
  simp only [countPayload]
  split <;> exact .current rfl rfl (List.Subset.refl _)

theorem clearForClose_grows (world : World κ σ) (clean : Bool) :
    Grows world.tcp (clearForClose world clean).tcp := by
  simp only [clearForClose, Tcp.noteClose]
  split <;> exact .current rfl rfl (List.Subset.refl _)

include through

theorem stable_grows (base : Tcp κ) : Stable callbacks fun world => Grows base world.tcp where
  connect := fun key connected world before =>
    before.trans (through.connect key connected world).grows
  data := fun key bytes world before => before.trans (through.data key bytes world).grows
  close := fun key clean world before => before.trans (through.close key clean world).grows
  clear := fun _ before => before.trans (clearConnection_grows _)
  abort := fun world before => before.trans (clearForClose_grows world false)
  acknowledge := fun world before => before.trans (emitAck_grows world)

theorem netTcpInput_grows (world : World κ σ) (src dst : Ipv4) (bytes : List UInt8) :
    Grows world.tcp (netTcpInput callbacks world src dst bytes).tcp := by
  refine (stable_grows through world.tcp).netTcpInput (.refl _) src dst bytes ?_
  intro segment _ _
  exact {
    opened := fun _ => openConnection_grows world segment
    first := fun _ _ now before _ => before.trans (countPayload_grows now _)
    acknowledged := fun _ => acknowledgePayload_grows world segment
    counted := fun _ _ _ => (acknowledgePayload_grows world segment).trans
      (countPayload_grows _ _)
    finished := fun _ _ before => (stable_grows through world.tcp).inputFin fun count =>
      ((before.trans (advanceRemote_grows _ count)).trans (emitAck_grows _)).trans
        (clearForClose_grows _ true) }

theorem netTcpPoll_grows (world : World κ σ) :
    Grows world.tcp (netTcpPoll callbacks world).tcp := by
  refine (stable_grows through world.tcp).netTcpPoll (.refl _)
    (fun _ _ _ good => good.trans (.current rfl rfl (List.Subset.refl _))) ?_
  intro _ pollTicks before
  exact @pollTransmit_keeps _ _ (fun now => Grows world.tcp now.tcp) _ before
    (fun _ => before.trans (pollSyn_grows _)) (fun _ _ => before.trans (pollPayload_grows _))
    (fun _ _ => before.trans (emitSegment_grows _ _ _ _ _ _))

end Grows

/-- The event is not the acceptance of an answer to a `SYN` whose transmission was
confirmed. -/
def TcpEvent.BeforeConfirmation (world : World κ σ) : TcpEvent κ σ → Prop
  | .input src dst bytes => ∀ segment, acceptSegment world src dst bytes = some segment →
      segment.opens world.tcp = true → world.tcp.synTransmitted = false
  | _ => True

/-- Steps that meet the condition. -/
def UnconfirmedStep (callbacks : Callbacks κ σ) (world : World κ σ) (event : TcpEvent κ σ)
    (world' : World κ σ) : Prop :=
  TcpStep callbacks world event world' ∧ event.BeforeConfirmation world

theorem Sequenced.fresh : Sequenced (Tcp.initial : Tcp κ) where
  numbered := by
    rw [Tcp.numbered_iff]
    exact ⟨List.forall_mem_nil _, List.forall_mem_nil _⟩
  initial := fun alive => absurd rfl alive
  connecting := fun state => by cases state
  established := fun state => by cases state
  pending := fun alive => absurd rfl alive

/-- A handshake that does not have the number after the initial one. -/
def Tcp.Skewed (tcp : Tcp κ) : Prop :=
  ∃ initial emission, tcp.Recorded initial emission ∧ emission.kind = .handshake ∧
    emission.sequence ≠ initial + 1

theorem Tcp.Skewed.not_numbered {tcp : Tcp κ} (skewed : tcp.Skewed) : ¬ tcp.Numbered := by
  obtain ⟨initial, emission, ⟨connection, member, rfl, emitted⟩, kind, wrong⟩ := skewed
  intro numbered
  have number := numbered connection member emission emitted
  simp only [Emission.Numbered, kind] at number
  exact wrong number

theorem Tcp.Skewed.grows {before after : Tcp κ} (skewed : before.Skewed)
    (grows : Grows before after) : after.Skewed := by
  obtain ⟨initial, emission, recorded, rest⟩ := skewed
  exact ⟨initial, emission, grows initial emission recorded, rest⟩

section Runs

variable {callbacks : Callbacks κ σ} (through : callbacks.ThroughApi) {world : World κ σ}

/-- The handshake after a confirmed `SYN` is one too far. -/
theorem openConnection_skewed (sequenced : Sequenced world.tcp) {segment : Segment}
    (opens : segment.opens world.tcp = true) (confirmed : world.tcp.synTransmitted = true) :
    (openConnection world segment).tcp.Skewed := by
  have connecting : world.tcp.state = .synSent := by
    simp only [Segment.opens, Bool.and_eq_true, decide_eq_true_eq] at opens
    exact opens.1.1.1.1
  have initial := sequenced.initial (by
    rw [connecting]
    exact fun same => by cases same)
  have number := (sequenced.connecting connecting).1
  simp only [confirmed, ↓reduceIte] at number
  simp only [openConnection, emitSegment_tcp]
  generalize (emitSegment _ _ _ _ _ _).1 = result
  refine ⟨world.tcp.current.initialSeq,
    ⟨.handshake, world.tcp.localSeq + 1, segment.sequence + 1, [], result⟩,
    ⟨_, List.mem_append_right _ (List.mem_singleton_self _), rfl, ?_⟩, rfl, ?_⟩
  · exact List.mem_append_right _ (List.mem_singleton_self _)
  · simp only [number, initial]
    generalize world.tcp.current.initialSeq = number
    bv_omega

include through

theorem tcpAfter_sequenced (sequenced : Sequenced world.tcp) (event : TcpEvent κ σ)
    (before : event.BeforeConfirmation world) :
    Sequenced (tcpAfter callbacks world event).tcp := by
  cases event with
  | init => exact netTcpInit_sequenced sequenced
  | connect ip port key onData onClose =>
      exact netTcpConnect_sequenced sequenced ip port key onData onClose
  | send data => exact netTcpSend_sequenced sequenced data
  | close => exact netTcpClose_sequenced sequenced
  | poll => exact netTcpPoll_sequenced through sequenced
  | input src dst bytes => exact netTcpInput_sequenced through sequenced src dst bytes before
  | other stack dns user => exact sequenced

theorem tcpAfter_grows (world : World κ σ) (event : TcpEvent κ σ) :
    Grows world.tcp (tcpAfter callbacks world event).tcp := by
  cases event with
  | init => exact netTcpInit_grows world
  | connect ip port key onData onClose =>
      exact netTcpConnect_grows world ip port key onData onClose
  | send data => exact netTcpSend_grows world data
  | close => exact netTcpClose_grows world
  | poll => exact netTcpPoll_grows through world
  | input src dst bytes => exact netTcpInput_grows through world src dst bytes
  | other stack dns user => exact .refl _

theorem tcpAfter_skewed (sequenced : Sequenced world.tcp) (event : TcpEvent κ σ)
    (late : ¬ event.BeforeConfirmation world) :
    (tcpAfter callbacks world event).tcp.Skewed := by
  cases event with
  | input src dst bytes =>
      simp only [TcpEvent.BeforeConfirmation, not_forall, Bool.not_eq_false] at late
      obtain ⟨segment, accepted, opens, confirmed⟩ := late
      have kept := opens
      simp only [Segment.opens, Bool.and_eq_true, decide_eq_true_eq,
        Bool.not_eq_eq_eq_not, Bool.not_true] at kept
      have skewed := openConnection_skewed sequenced opens confirmed
      have keeps := stable_grows through (openConnection world segment).tcp
      have told := callIf_keeps (fun key => keeps.connect key true) (.refl _)
        world.tcp.connectCallback
      simp only [tcpAfter, netTcpInput, accepted, kept.1.1.1.1, kept.1.1.1.2, inputSynSent,
        opens, Bool.not_true, Bool.false_eq_true, ↓reduceIte]
      split
      · exact skewed.grows (keeps.deliverPayload (told.trans (countPayload_grows _ _)))
      · exact skewed.grows told
  | _ => exact absurd trivial late

/-- At the end of a run whose steps all meet the condition, the client holds the right
numbers. -/
theorem unconfirmed_run_sequenced {start finish : World κ σ} {events : List (TcpEvent κ σ)}
    (fresh : start.tcp = Tcp.initial)
    (run : Run (UnconfirmedStep callbacks) start events finish) : Sequenced finish.tcp := by
  refine @Run.invariant _ _ _ _ _ _ (fun world => Sequenced world.tcp) (fun _ => True) ?_ run
    (fresh ▸ .fresh) (fun _ _ => trivial)
  rintro world event world' sequenced - ⟨rfl, before⟩
  exact tcpAfter_sequenced through sequenced event before

/-- A run meets the condition in every step, or it has left a handshake with a wrong
number in the record. -/
theorem run_unconfirmed_or_skewed {start finish : World κ σ}
    {events : List (TcpEvent κ σ)} (fresh : start.tcp = Tcp.initial)
    (run : Run (TcpStep callbacks) start events finish) :
    Run (UnconfirmedStep callbacks) start events finish ∨ finish.tcp.Skewed := by
  induction run with
  | start => exact .inl .start
  | @next events middle finish event run step ih =>
  obtain rfl : finish = tcpAfter callbacks middle event := step
  rcases ih with good | skewed
  · by_cases before : event.BeforeConfirmation middle
    · exact .inl (good.next ⟨rfl, before⟩)
    · exact .inr (tcpAfter_skewed through
        (unconfirmed_run_sequenced through fresh good) event before)
  · exact .inr (skewed.grows (tcpAfter_grows through middle event))

/-- Every connection of a run has used one contiguous sequence space exactly when no
answer to a `SYN` was accepted after the transmission of the `SYN` was confirmed. -/
theorem tcp_sequence_space_iff {start finish : World κ σ} {events : List (TcpEvent κ σ)}
    (fresh : start.tcp = Tcp.initial)
    (run : Run (TcpStep callbacks) start events finish) :
    finish.tcp.Numbered ↔ Run (UnconfirmedStep callbacks) start events finish := by
  constructor
  · intro numbered
    rcases run_unconfirmed_or_skewed through fresh run with good | skewed
    · exact good
    · exact absurd numbered skewed.not_numbered
  · intro good
    exact (unconfirmed_run_sequenced through fresh good).numbered

end Runs

theorem idleCallbacks_throughApi : idleCallbacks.ThroughApi :=
  ⟨fun _ _ _ => .refl, fun _ _ _ => .refl, fun _ _ _ => .refl⟩

/-- Connect, send the `SYN` and receive the answer that acknowledges it. -/
def handshakeEvents : List (TcpEvent Unit Unit) :=
  let initial := initialSequence 49152 80
  [.connect 0x0A000202 80 () none none, .poll,
    .input 0x0A000202 0x0A00020F
      (tcpSegment 0x0A000202 0x0A00020F 80 49152 0x12 1000 (initial + 1) [])]

/-- The answer of a peer that follows the protocol makes the client skip a sequence
number. -/
theorem tcp_handshake_counts_syn_twice :
    Run (TcpStep idleCallbacks) neighbourWorld handshakeEvents
        (tcpFinish idleCallbacks neighbourWorld handshakeEvents) ∧
      ¬ (tcpFinish idleCallbacks neighbourWorld handshakeEvents).tcp.Numbered := by
  refine ⟨run_tcpFinish _ _ _, ?_⟩
  decide +kernel

/-- A `SYN` that was not confirmed, an answer that acknowledges nothing yet, and a
payload. -/
def unconfirmedEvents : List (TcpEvent Unit Unit) :=
  [.connect 0x0A000202 80 () none none,
    .input 0x0A000202 0x0A00020F
      (tcpSegment 0x0A000202 0x0A00020F 80 49152 0x12 1000 (initialSequence 49152 80) []),
    .send (ascii "GET / HTTP/1.1")]

/-- The equivalence at a run that sends a payload. -/
theorem tcp_sequence_space_iff_payload :
    (tcpFinish idleCallbacks neighbourWorld unconfirmedEvents).tcp.Numbered ∧
      (tcpFinish idleCallbacks neighbourWorld unconfirmedEvents).tcp.current.accepted =
        ascii "GET / HTTP/1.1" ∧
      Run (UnconfirmedStep idleCallbacks) neighbourWorld unconfirmedEvents
        (tcpFinish idleCallbacks neighbourWorld unconfirmedEvents) := by
  have numbered :
      (tcpFinish idleCallbacks neighbourWorld unconfirmedEvents).tcp.Numbered := by
    decide +kernel
  refine ⟨numbered, by decide +kernel, ?_⟩
  exact (tcp_sequence_space_iff idleCallbacks_throughApi rfl (run_tcpFinish _ _ _)).mp numbered

end Charis.Net
