import Charis.Net.TcpRules

/-!
# The end of the sequence space

The `FIN` of a connection is to come right after the last accepted payload byte.  It
does unless `net_tcp_close` is called while a payload waits for its first transmission:
`local_seq` does not count such a payload, and the `FIN` takes the number of its first
byte.  An acknowledgement of the payload alone is lost once the `FIN` was sent.
-/

namespace Charis.Net

open Charis.Lib

variable {κ σ : Type}

/-- Segments that no byte of the stream depends on. -/
def Emission.Plain (emission : Emission) : Prop :=
  emission.kind = .syn ∨ emission.kind = .acknowledge ∨ emission.kind = .refused

/-- A `FIN` that was not held back for an address. -/
def Emission.IsFin (emission : Emission) : Prop :=
  emission.kind = .fin ∧ emission.result ≠ .resolving

/-- The segment has its place in a stream whose first byte has the number `base`. -/
def Emission.Placed (emission : Emission) (base : BitVec 32) (connection : Connection) : Prop :=
  match emission.kind with
  | .handshake => emission.sequence = base
  | .payload offset =>
      emission.sequence = base + BitVec.ofNat 32 offset ∧
        emission.payload <+: connection.accepted.drop offset
  | .fin =>
      emission.result ≠ .resolving →
        emission.sequence = base + BitVec.ofNat 32 connection.accepted.length
  | _ => True

/-- The `FIN` of a connection follows its last payload byte and shares its number with no
payload byte. -/
structure Connection.FinFollows (connection : Connection) : Prop where
  placed : ∃ base, ∀ emission ∈ connection.emissions, emission.Placed base connection
  separate : ∀ fin ∈ connection.emissions, fin.IsFin →
    ∀ sent ∈ connection.emissions, ∀ offset, sent.kind = .payload offset →
      ∀ index < sent.payload.length, sent.sequence + BitVec.ofNat 32 index ≠ fin.sequence

theorem Emission.Plain.placed {emission : Emission} (plain : emission.Plain)
    (base : BitVec 32) (connection : Connection) : emission.Placed base connection := by
  unfold Emission.Placed
  rcases plain with kind | kind | kind <;> rw [kind] <;> trivial

/-- A stream of less than 2^32 bytes leaves a number of its own to the `FIN`. -/
theorem Connection.finFollows {connection : Connection} {base : BitVec 32}
    (placed : ∀ emission ∈ connection.emissions, emission.Placed base connection)
    (short : ∀ emission ∈ connection.emissions, emission.IsFin →
      connection.accepted.length < 2 ^ 32) : connection.FinFollows where
  placed := ⟨base, placed⟩
  separate := by
    intro fin finSent isFin sent payloadSent offset kind index inside
    have few := short fin finSent isFin
    have finPlace := placed fin finSent
    have payloadPlace := placed sent payloadSent
    simp only [Emission.Placed, isFin.1] at finPlace
    simp only [Emission.Placed, kind] at payloadPlace
    rw [finPlace isFin.2, payloadPlace.1, BitVec.add_assoc, ← BitVec.ofNat_add]
    intro same
    have fits := payloadPlace.2.length_le
    rw [List.length_drop] at fits
    rw [BitVec.add_right_inj] at same
    have numbers := congrArg BitVec.toNat same
    simp only [BitVec.toNat_ofNat] at numbers
    omega

/-- The numbers of the current connection, whose first byte has the number `base`. -/
structure Placements (base : BitVec 32) (tcp : Tcp κ) : Prop where
  placed : ∀ emission ∈ tcp.current.emissions, emission.Placed base tcp.current
  short : ∀ emission ∈ tcp.current.emissions, emission.IsFin →
    tcp.current.accepted.length < 2 ^ 32
  connecting : tcp.state = .synSent →
    (∀ emission ∈ tcp.current.emissions, emission.Plain) ∧ tcp.current.accepted = [] ∧
      tcp.txPending = false
  established : tcp.state = .established →
    (∀ emission ∈ tcp.current.emissions, emission.kind ≠ .fin) ∧
      tcp.localSeq =
        base + BitVec.ofNat 32 (tcp.current.accepted.length - tcp.unsent)
  finWait : tcp.state = .finWait →
    tcp.current.accepted.length < 2 ^ 32 ∧
      tcp.localSeq = base + BitVec.ofNat 32 tcp.current.accepted.length + 1 ∧
      (tcp.txPending = true → tcp.txTransmitted = true)
  pending : tcp.state ≠ .closed → tcp.txPending = true →
    tcp.txPayload.length ≤ tcp.current.accepted.length ∧
      tcp.txSequence =
        base + BitVec.ofNat 32 (tcp.current.accepted.length - tcp.txPayload.length) ∧
      tcp.txPayload =
        tcp.current.accepted.drop (tcp.current.accepted.length - tcp.txPayload.length)

/-- All connections so far and the current one. -/
structure Following (tcp : Tcp κ) : Prop where
  past : ∀ connection ∈ tcp.past, connection.FinFollows
  current : ∃ base, Placements base tcp

theorem Following.finFollows {tcp : Tcp κ} (following : Following tcp) :
    ∀ connection ∈ tcp.past ++ [tcp.current], connection.FinFollows := by
  intro connection member
  rcases List.mem_append.mp member with old | now
  · exact following.past connection old
  · obtain ⟨base, placements⟩ := following.current
    rw [List.mem_singleton] at now
    subst now
    exact Connection.finFollows placements.placed placements.short

theorem Following.fresh : Following (Tcp.initial : Tcp κ) where
  past := List.forall_mem_nil _
  current := ⟨0, {
    placed := List.forall_mem_nil _
    short := List.forall_mem_nil _
    connecting := fun state => by cases state
    established := fun state => by cases state
    finWait := fun state => by cases state
    pending := fun alive => absurd rfl alive }⟩

namespace Placements

variable {base : BitVec 32} {tcp : Tcp κ} (placements : Placements base tcp)

include placements

theorem note {emission : Emission} (next : emission.Placed base tcp.current)
    (short : emission.IsFin → tcp.current.accepted.length < 2 ^ 32)
    (plain : tcp.state = .synSent → emission.Plain)
    (unfinished : tcp.state = .established → emission.kind ≠ .fin) :
    Placements base (tcp.note emission) where
  placed := List.forall_mem_append.mpr ⟨placements.placed, List.forall_mem_singleton.mpr next⟩
  short := List.forall_mem_append.mpr ⟨placements.short, List.forall_mem_singleton.mpr short⟩
  connecting := fun state => by
    have before := placements.connecting state
    exact ⟨List.forall_mem_append.mpr ⟨before.1, List.forall_mem_singleton.mpr (plain state)⟩,
      before.2⟩
  established := fun state => by
    have before := placements.established state
    exact ⟨List.forall_mem_append.mpr
      ⟨before.1, List.forall_mem_singleton.mpr (unfinished state)⟩, before.2⟩
  finWait := placements.finWait
  pending := placements.pending

theorem notePlain {emission : Emission} (plain : emission.Plain) :
    Placements base (tcp.note emission) := by
  have other : emission.kind ≠ .fin := by
    rcases plain with kind | kind | kind <;> simp [kind]
  exact placements.note (plain.placed _ _) (fun fin => absurd fin.1 other) (fun _ => plain)
    fun _ => other

/-- The end of a connection, whatever is noted with it. -/
theorem ended {tcp' : Tcp κ} (emissions : tcp'.current.emissions = tcp.current.emissions)
    (accepted : tcp'.current.accepted = tcp.current.accepted) (closed : tcp'.state = .closed) :
    Placements base tcp' where
  placed := by
    rw [emissions]
    intro emission member
    have before := placements.placed emission member
    unfold Emission.Placed at before ⊢
    rwa [accepted]
  short := by
    rw [emissions, accepted]
    exact placements.short
  connecting := fun state => by
    rw [closed] at state
    cases state
  established := fun state => by
    rw [closed] at state
    cases state
  finWait := fun state => by
    rw [closed] at state
    cases state
  pending := fun alive => absurd closed alive

theorem clear : Placements base (clearConnection tcp) := placements.ended rfl rfl rfl

end Placements

/-! ## Calls -/

/-- The next hop to an address is not known yet, so that nothing can be sent to it. -/
def Stack.AwaitsArp (stack : Stack) (destination : Ipv4) : Prop :=
  stack.ensureReady.ipIsConfigured = true ∧ stack.ensureReady.nic.initialized = true ∧
    destination ≠ stack.ensureReady.localIp ∧
    ∃ nextHop, routeIpv4 stack.ensureReady destination = some nextHop ∧
      stack.ensureReady.findArp nextHop = none

theorem Stack.AwaitsArp.resolving {stack : Stack} {destination : Ipv4}
    (awaits : stack.AwaitsArp destination) {payload : List UInt8}
    (fits : payload.length ≤ frameCap - 34) (protocol : BitVec 8) :
    (netIpv4Send stack destination protocol payload).1 = .resolving := by
  obtain ⟨configured, up, remote, nextHop, route, unknown⟩ := awaits
  have miss : (netStackResolveIpv4 stack.ensureReady nextHop).1 = none := by
    simp only [netStackResolveIpv4, ensureReady_idem, unknown]
    split
    · rfl
    split <;> rfl
  simp only [netIpv4Send, configured, up, route, if_neg remote, Bool.not_true,
    Bool.false_eq_true, or_false, ↓reduceIte, if_neg (Nat.not_lt.mpr fits)]
  split
  · rfl
  · next found =>
      rw [found] at miss
      cases miss

/-- `net_tcp_close` is called with no payload waiting for its first transmission, unless
the `FIN` has to wait as well, and the stream has not used up all numbers. -/
def ClosesCarefully (world : World κ σ) : Prop :=
  world.tcp.state = .established →
    (world.tcp.txPending = true → world.tcp.txTransmitted = false →
      world.stack.AwaitsArp world.tcp.remoteIp) ∧
      world.tcp.current.accepted.length < 2 ^ 32

section Calls

variable {world : World κ σ}

theorem netTcpInit_following (following : Following world.tcp) :
    Following (netTcpInit world).tcp := by
  unfold netTcpInit
  split
  · exact following
  · obtain ⟨base, placements⟩ := following.current
    exact ⟨following.past, base, placements.ended rfl rfl rfl⟩

theorem netTcpConnect_following (following : Following world.tcp) (ip : Ipv4)
    (port : BitVec 16) (key : κ) (onData onClose : Option κ) :
    Following (netTcpConnect world ip port key onData onClose).2.tcp := by
  have ready := netTcpInit_following following
  simp only [netTcpConnect]
  split
  · exact ready
  split
  · exact ready
  · exact {
      past := ready.finFollows
      current := ⟨0, {
        placed := List.forall_mem_nil _
        short := List.forall_mem_nil _
        connecting := fun _ => ⟨List.forall_mem_nil _, rfl, rfl⟩
        established := fun state => by cases state
        finWait := fun state => by cases state
        pending := fun _ pending => by cases pending }⟩ }

/-- Accepting more bytes keeps every segment but a `FIN` in place. -/
theorem Emission.Placed.accept {emission : Emission} {base : BitVec 32}
    {connection : Connection} (placed : emission.Placed base connection)
    (other : emission.kind ≠ .fin) (data : List UInt8) :
    emission.Placed base { connection with accepted := connection.accepted ++ data } := by
  unfold Emission.Placed at placed ⊢
  split at placed
  · exact placed
  · refine ⟨placed.1, placed.2.trans ?_⟩
    rw [List.drop_append]
    exact List.prefix_append _ _
  · next kind => exact absurd kind other
  · trivial

theorem netTcpSend_following (following : Following world.tcp) (data : List UInt8) :
    Following (netTcpSend world data).2.tcp := by
  simp only [netTcpSend]
  split
  · exact following
  next allowed =>
  simp only [not_or, not_not] at allowed
  split
  · exact following
  next idle =>
  rw [Bool.not_eq_true] at idle
  obtain ⟨base, placements⟩ := following.current
  obtain ⟨unfinished, number⟩ := placements.established allowed.1
  simp only [Tcp.unsent, idle, Bool.false_and, Bool.false_eq_true, ↓reduceIte,
    Nat.sub_zero] at number
  simp only [emitSegment_tcp]
  generalize (emitSegment _ _ _ _ _ _).1 = result
  -- the record after the bytes were accepted
  have kept (emission : Emission) (member : emission ∈ world.tcp.current.emissions) :
      emission.Placed base { world.tcp.current with
        accepted := world.tcp.current.accepted ++ data } :=
    (placements.placed emission member).accept (unfinished emission member) data
  have placedData : Emission.Placed ⟨.payload world.tcp.current.accepted.length,
      world.tcp.localSeq, world.tcp.remoteSeq, data, result⟩ base
      { world.tcp.current with accepted := world.tcp.current.accepted ++ data } :=
    ⟨number, by simp⟩
  have noFin (emission : Emission) (member : emission ∈ world.tcp.current.emissions)
      (fin : emission.IsFin) : False := unfinished emission member fin.1
  refine ⟨?_, base, ?_⟩
  · cases result <;> exact following.past
  cases result with
  | done bytes =>
      exact {
        placed := List.forall_mem_append.mpr ⟨kept, List.forall_mem_singleton.mpr placedData⟩
        short := List.forall_mem_append.mpr ⟨fun emission member fin =>
          (noFin emission member fin).elim, List.forall_mem_singleton.mpr fun fin => by
            cases fin.1⟩
        connecting := fun state => by
          rw [show world.tcp.state = .synSent from state] at allowed
          cases allowed.1
        established := fun _ => ⟨List.forall_mem_append.mpr ⟨unfinished,
          List.forall_mem_singleton.mpr (by simp)⟩, by
            simp only [Tcp.unsent, Tcp.note, number, Bool.not_true, Bool.and_false,
              Bool.false_eq_true, ↓reduceIte, List.length_append, Nat.sub_zero]
            rw [BitVec.ofNat_add, BitVec.add_assoc]⟩
        finWait := fun state => by
          rw [show world.tcp.state = .finWait from state] at allowed
          cases allowed.1
        pending := fun _ _ => by simp [Tcp.note, number] }
  | resolving =>
      exact {
        placed := List.forall_mem_append.mpr ⟨kept, List.forall_mem_singleton.mpr placedData⟩
        short := List.forall_mem_append.mpr ⟨fun emission member fin =>
          (noFin emission member fin).elim, List.forall_mem_singleton.mpr fun fin => by
            cases fin.1⟩
        connecting := fun state => by
          rw [show world.tcp.state = .synSent from state] at allowed
          cases allowed.1
        established := fun _ => ⟨List.forall_mem_append.mpr ⟨unfinished,
          List.forall_mem_singleton.mpr (by simp)⟩, by
            simp [Tcp.unsent, Tcp.note, number]⟩
        finWait := fun state => by
          rw [show world.tcp.state = .finWait from state] at allowed
          cases allowed.1
        pending := fun _ _ => by simp [Tcp.note, number] }
  | failed =>
  exact {
    placed := List.forall_mem_append.mpr ⟨placements.placed,
      List.forall_mem_singleton.mpr trivial⟩
    short := List.forall_mem_append.mpr ⟨placements.short,
      List.forall_mem_singleton.mpr fun fin => by cases fin.1⟩
    connecting := fun state => by
      rw [show world.tcp.state = .synSent from state] at allowed
      cases allowed.1
    established := fun _ => ⟨List.forall_mem_append.mpr ⟨unfinished,
      List.forall_mem_singleton.mpr (by simp)⟩, by
        simp [Tcp.unsent, Tcp.note, number]⟩
    finWait := fun state => by
      rw [show world.tcp.state = .finWait from state] at allowed
      cases allowed.1
    pending := fun _ pending => by cases pending }

/-- A `FIN` in its place, for a careful call. -/
theorem netTcpClose_following (following : Following world.tcp)
    (careful : ClosesCarefully world) : Following (netTcpClose world).tcp := by
  obtain ⟨base, placements⟩ := following.current
  simp only [netTcpClose]
  split
  case isFalse => exact ⟨following.past, base, placements.clear⟩
  case isTrue opened =>
  obtain ⟨awaits, few⟩ := careful opened
  obtain ⟨unfinished, number⟩ := placements.established opened
  have resolving (waits : world.tcp.txPending = true)
      (untransmitted : world.tcp.txTransmitted = false) :
      (emitSegment world (fun _ => .fin) 0x11 world.tcp.localSeq world.tcp.remoteSeq []).1 =
        .resolving :=
    (awaits waits untransmitted).resolving (by simp [tcpSegment, be16, be32, frameCap]) 6
  generalize emitted : emitSegment _ _ _ _ _ _ = sent at resolving
  have record : sent.2.tcp = world.tcp.note
      ⟨.fin, world.tcp.localSeq, world.tcp.remoteSeq, [], sent.1⟩ := by
    rw [← emitted, emitSegment_tcp]
  have placedFin : Emission.Placed ⟨.fin, world.tcp.localSeq, world.tcp.remoteSeq, [], sent.1⟩
      base world.tcp.current := by
    intro told
    have transmitted : ¬ (world.tcp.txPending && !world.tcp.txTransmitted) = true := by
      intro waits
      simp only [Bool.and_eq_true, Bool.not_eq_true'] at waits
      exact told (resolving waits.1 waits.2)
    rw [number, Tcp.unsent, if_neg transmitted, Nat.sub_zero]
  have placed : ∀ emission ∈ sent.2.tcp.current.emissions,
      emission.Placed base sent.2.tcp.current := by
    rw [record]
    exact List.forall_mem_append.mpr ⟨placements.placed, List.forall_mem_singleton.mpr placedFin⟩
  have past : ∀ connection ∈ sent.2.tcp.past, connection.FinFollows := by
    rw [record]
    exact following.past
  split
  · next ok =>
      have told : sent.1 ≠ .resolving := by
        intro held
        rw [held] at ok
        cases ok
      refine ⟨past, base, ?_⟩
      exact {
        placed := placed
        short := fun _ _ _ => by
          simp only [record]
          exact few
        connecting := fun state => by cases state
        established := fun state => by cases state
        finWait := fun _ => by
          have place := placedFin told
          simp only at place
          simp only [record, Tcp.note]
          refine ⟨few, by rw [place], fun waits => ?_⟩
          by_contra untransmitted
          exact told (resolving waits (by simpa using untransmitted))
        pending := fun _ => by
          simp only [record, Tcp.note]
          exact placements.pending (by simp [opened]) }
  · refine ⟨past, base, ?_⟩
    exact {
      placed := placed
      short := fun _ _ _ => by
        simp only [clearConnection, record]
        exact few
      connecting := fun state => by cases state
      established := fun state => by cases state
      finWait := fun state => by cases state
      pending := fun alive => absurd rfl alive }

end Calls

/-- What a user of the network code can do if it closes connections carefully. -/
inductive CarefulCalls (world : World κ σ) : World κ σ → Prop
  | refl : CarefulCalls world world
  | connect {middle : World κ σ} (ip : Ipv4) (port : BitVec 16) (key : κ)
      (onData onClose : Option κ) :
      CarefulCalls world middle →
      CarefulCalls world (netTcpConnect middle ip port key onData onClose).2
  | send {middle : World κ σ} (data : List UInt8) :
      CarefulCalls world middle → CarefulCalls world (netTcpSend middle data).2
  | close {middle : World κ σ} :
      CarefulCalls world middle → ClosesCarefully middle →
      CarefulCalls world (netTcpClose middle)
  | other {middle : World κ σ} (stack : Stack) (dns : Dns κ) (user : σ) :
      CarefulCalls world middle → CarefulCalls world { middle with stack, dns, user }

structure Callbacks.Careful (callbacks : Callbacks κ σ) : Prop where
  connect : ∀ key connected world,
    CarefulCalls world (callbacks.tcpConnect key connected world)
  data : ∀ key bytes world, CarefulCalls world (callbacks.tcpData key bytes world)
  close : ∀ key clean world, CarefulCalls world (callbacks.tcpClose key clean world)

theorem CarefulCalls.following {world world' : World κ σ} (calls : CarefulCalls world world')
    (following : Following world.tcp) : Following world'.tcp := by
  induction calls with
  | refl => exact following
  | connect ip port key onData onClose _ ih =>
      exact netTcpConnect_following ih ip port key onData onClose
  | send data _ ih => exact netTcpSend_following ih data
  | close _ careful ih => exact netTcpClose_following ih careful
  | other stack dns user _ ih => exact ih

section Input

variable {callbacks : Callbacks κ σ} (careful : callbacks.Careful) {world : World κ σ}

theorem emitAck_following (following : Following world.tcp) :
    Following (emitAck world).tcp := by
  obtain ⟨base, placements⟩ := following.current
  rw [emitAck, emitSegment_tcp]
  exact ⟨following.past, base, placements.notePlain (.inr (.inl rfl))⟩

/-- The numbers of the peer, what it has sent and the counters do not matter. -/
theorem Following.aside {tcp : Tcp κ} (following : Following tcp) (remoteSeq : BitVec 32)
    (delivered : List UInt8) (pollTicks retries : Nat) :
    Following { tcp with
      remoteSeq, pollTicks, retries, current := { tcp.current with delivered } } := by
  obtain ⟨base, placements⟩ := following.current
  exact ⟨following.past, base, placements.placed, placements.short, placements.connecting,
    placements.established, placements.finWait, placements.pending⟩

theorem advanceRemote_following (following : Following world.tcp) (count : BitVec 32) :
    Following (advanceRemote world count).tcp :=
  following.aside _ world.tcp.current.delivered _ _

theorem countPayload_following (following : Following world.tcp) (payload : List UInt8) :
    Following (countPayload world payload).tcp := by
  simp only [countPayload]
  split
  · exact following.aside _ _ _ _
  · exact following.aside _ world.tcp.current.delivered _ _

theorem clearForClose_following (following : Following world.tcp) (clean : Bool) :
    Following (clearForClose world clean).tcp := by
  obtain ⟨base, placements⟩ := following.current
  simp only [clearForClose, Tcp.noteClose]
  split
  · exact ⟨following.past, base, placements.ended rfl rfl rfl⟩
  · exact ⟨following.past, base, placements.clear⟩

/-- The first byte of the stream has the number of the handshake. -/
theorem openConnection_following (following : Following world.tcp) {segment : Segment}
    (opens : segment.opens world.tcp = true) :
    Following (openConnection world segment).tcp := by
  have connecting : world.tcp.state = .synSent := by
    simp only [Segment.opens, Bool.and_eq_true, decide_eq_true_eq] at opens
    exact opens.1.1.1.1
  obtain ⟨base, placements⟩ := following.current
  obtain ⟨plain, empty, idle⟩ := placements.connecting connecting
  simp only [openConnection, emitSegment_tcp]
  generalize (emitSegment _ _ _ _ _ _).1 = result
  have unfinished : ∀ emission ∈ world.tcp.current.emissions, emission.kind ≠ .fin := by
    intro emission member
    rcases plain emission member with kind | kind | kind <;> simp [kind]
  refine ⟨following.past, world.tcp.localSeq + 1, ?_⟩
  exact {
    placed := List.forall_mem_append.mpr ⟨fun emission member => (plain emission member).placed _ _,
      List.forall_mem_singleton.mpr rfl⟩
    short := List.forall_mem_append.mpr ⟨fun emission member fin =>
      absurd fin.1 (unfinished emission member), List.forall_mem_singleton.mpr fun fin => by
        cases fin.1⟩
    connecting := fun state => by cases state
    established := fun _ => ⟨List.forall_mem_append.mpr ⟨unfinished,
      List.forall_mem_singleton.mpr (by simp)⟩, by
        simp [Tcp.unsent, Tcp.note, idle, empty]⟩
    finWait := fun state => by cases state
    pending := fun _ pending => by
      rw [show world.tcp.txPending = true from pending] at idle
      cases idle }

theorem acknowledgePayload_following (following : Following world.tcp)
    (connected : world.tcp.state ≠ .synSent) (segment : Segment) :
    Following (acknowledgePayload world segment).tcp := by
  obtain ⟨base, placements⟩ := following.current
  simp only [acknowledgePayload]
  split
  · next seen =>
      simp only [Bool.and_eq_true] at seen
      refine ⟨following.past, base, ?_⟩
      exact {
        placed := placements.placed
        short := placements.short
        connecting := fun state => absurd state connected
        established := fun state => by
          have before := placements.established state
          simp only [Tcp.unsent, seen.1.2, Bool.not_true, Bool.and_false,
            Bool.false_eq_true, ↓reduceIte] at before
          exact ⟨before.1, by simpa [Tcp.unsent] using before.2⟩
        finWait := fun state => by
          have before := placements.finWait state
          exact ⟨before.1, before.2.1, fun pending => by cases pending⟩
        pending := fun _ pending => by cases pending }
  · exact following

theorem pollSyn_following (following : Following world.tcp)
    (connecting : world.tcp.state = .synSent) : Following (pollSyn world).2.tcp := by
  obtain ⟨base, placements⟩ := following.current
  simp only [pollSyn]
  generalize emitted : emitSegment _ _ _ _ _ _ = sent
  have record : sent.2.tcp = world.tcp.note
      ⟨.syn, world.tcp.initialSeq, 0, [], sent.1⟩ := by
    rw [← emitted, emitSegment_tcp]
  have noted : Placements base sent.2.tcp := by
    rw [record]
    exact placements.notePlain (.inl rfl)
  have state : sent.2.tcp.state = .synSent := by
    rw [record]
    exact connecting
  have past : ∀ connection ∈ sent.2.tcp.past, connection.FinFollows := by
    rw [record]
    exact following.past
  split
  · refine ⟨past, base, ?_⟩
    exact {
      placed := noted.placed
      short := noted.short
      connecting := noted.connecting
      established := fun opened => by
        rw [show sent.2.tcp.state = .established from opened] at state
        cases state
      finWait := fun waiting => by
        rw [show sent.2.tcp.state = .finWait from waiting] at state
        cases state
      pending := noted.pending }
  · exact ⟨past, base, noted⟩

/-- The pending payload is sent in its place. -/
theorem pollPayload_following (following : Following world.tcp)
    (alive : world.tcp.state ≠ .closed) (connected : world.tcp.state ≠ .synSent)
    (pending : world.tcp.txPending = true) : Following (pollPayload world).2.tcp := by
  obtain ⟨base, placements⟩ := following.current
  obtain ⟨fits, number, tail⟩ := placements.pending alive pending
  simp only [pollPayload]
  generalize emitted : emitSegment _ _ _ _ _ _ = sent
  have record : sent.2.tcp = world.tcp.note
      ⟨.payload (world.tcp.current.accepted.length - world.tcp.txPayload.length),
        world.tcp.txSequence, world.tcp.remoteSeq, world.tcp.txPayload, sent.1⟩ := by
    rw [← emitted, emitSegment_tcp]
  have noted : Placements base sent.2.tcp := by
    rw [record]
    refine placements.note ⟨number, ?_⟩ (fun fin => by cases fin.1)
      (fun state => absurd state connected) (fun _ => by simp)
    rw [← tail]
  have past : ∀ connection ∈ sent.2.tcp.past, connection.FinFollows := by
    rw [record]
    exact following.past
  split
  · next first =>
      refine ⟨past, base, ?_⟩
      exact {
        placed := noted.placed
        short := noted.short
        connecting := fun state => by
          simp only [record, Tcp.note] at state
          exact absurd state connected
        established := fun state => by
          refine ⟨(noted.established state).1, ?_⟩
          simp only [Tcp.unsent, record, Tcp.note, number, Bool.not_true, Bool.and_false,
            Bool.false_eq_true, ↓reduceIte, Nat.sub_zero]
          rw [BitVec.add_assoc, ← BitVec.ofNat_add, Nat.sub_add_cancel fits]
        finWait := fun state => by
          simp only [record, Tcp.note] at state
          have transmitted := (placements.finWait state).2.2 pending
          simp [transmitted] at first
        pending := noted.pending }
  · exact ⟨past, base, noted⟩

/-- A `FIN` that is sent again has the place of the first one. -/
theorem pollFin_following (following : Following world.tcp)
    (waiting : world.tcp.state = .finWait) :
    Following (emitSegment world (fun _ => .fin) 0x11 (world.tcp.localSeq - 1)
      world.tcp.remoteSeq []).2.tcp := by
  obtain ⟨base, placements⟩ := following.current
  obtain ⟨few, number, -⟩ := placements.finWait waiting
  rw [emitSegment_tcp]
  refine ⟨following.past, base, placements.note (fun _ => ?_) (fun _ => few)
    (fun state => ?_) (fun state => ?_)⟩
  · simp only [number, BitVec.add_sub_cancel]
  · rw [waiting] at state
    cases state
  · rw [waiting] at state
    cases state

include careful

theorem stable_following : Stable callbacks fun now => Following now.tcp where
  connect := fun key connected now => (careful.connect key connected now).following
  data := fun key bytes now => (careful.data key bytes now).following
  close := fun key clean now => (careful.close key clean now).following
  clear := fun _ following => by
    obtain ⟨base, placements⟩ := following.current
    exact ⟨following.past, base, placements.clear⟩
  abort := fun _ following => clearForClose_following following false
  acknowledge := fun _ following => emitAck_following following

theorem netTcpInput_following (following : Following world.tcp) (src dst : Ipv4)
    (bytes : List UInt8) : Following (netTcpInput callbacks world src dst bytes).tcp := by
  have stable := stable_following careful
  refine stable.netTcpInput following src dst bytes fun segment _ _ => ?_
  exact {
    opened := fun opens => openConnection_following following opens
    first := fun _ _ _ before _ => countPayload_following before _
    acknowledged := fun connected => acknowledgePayload_following following connected segment
    counted := fun connected _ _ =>
      countPayload_following (acknowledgePayload_following following connected segment) _
    finished := fun _ _ before => stable.inputFin fun _ =>
      clearForClose_following (emitAck_following (advanceRemote_following before _)) true }

theorem netTcpPoll_following (following : Following world.tcp) :
    Following (netTcpPoll callbacks world).tcp := by
  refine (stable_following careful).netTcpPoll following
    (fun _ pollTicks retries good => good.aside _ _ pollTicks retries) ?_
  intro alive pollTicks before
  exact @pollTransmit_keeps _ _ (fun now => Following now.tcp) _ before
    (fun connecting => pollSyn_following before connecting)
    (fun connected pending => pollPayload_following before alive connected pending)
    (fun waiting _ => pollFin_following before waiting)

end Input

/-! ## Runs -/

/-- Connections are closed carefully. -/
def TcpEvent.Careful (world : World κ σ) : TcpEvent κ σ → Prop
  | .close => ClosesCarefully world
  | _ => True

theorem tcpAfter_following {callbacks : Callbacks κ σ} (careful : callbacks.Careful)
    {world : World κ σ} (following : Following world.tcp) {event : TcpEvent κ σ}
    (carefully : event.Careful world) : Following (tcpAfter callbacks world event).tcp := by
  cases event with
  | init => exact netTcpInit_following following
  | connect ip port key onData onClose =>
      exact netTcpConnect_following following ip port key onData onClose
  | send data => exact netTcpSend_following following data
  | close => exact netTcpClose_following following carefully
  | poll => exact netTcpPoll_following careful following
  | input src dst bytes => exact netTcpInput_following careful following src dst bytes
  | other stack dns user => exact following

/-- The segment acknowledges the pending payload and nothing beyond it. -/
def Segment.CoversExactly (segment : Segment) (tcp : Tcp κ) : Prop :=
  segment.hasAck = true ∧ tcp.txPending = true ∧ tcp.txTransmitted = true ∧
    segment.acknowledgement = tcp.txSequence + BitVec.ofNat 32 tcp.txPayload.length

/-- An acknowledgement of exactly the payload clears it as long as no `FIN` was sent;
after that only if `local_seq` has come round to zero. -/
theorem acknowledgePayload_exact {world : World κ σ} (following : Following world.tcp)
    (connected : world.tcp.state ≠ .synSent) (alive : world.tcp.state ≠ .closed)
    {segment : Segment} (covers : segment.CoversExactly world.tcp) :
    (acknowledgePayload world segment).tcp.txPending = false ↔
      world.tcp.state = .established ∨ world.tcp.localSeq = 0 := by
  obtain ⟨base, placements⟩ := following.current
  obtain ⟨ack, pending, transmitted, exactly⟩ := covers
  obtain ⟨fits, number, -⟩ := placements.pending alive pending
  have covered : segment.acknowledgement =
      base + BitVec.ofNat 32 world.tcp.current.accepted.length := by
    rw [exactly, number, BitVec.add_assoc, ← BitVec.ofNat_add, Nat.sub_add_cancel fits]
  have cleared : (acknowledgePayload world segment).tcp.txPending = false ↔
      world.tcp.localSeq ≤ segment.acknowledgement := by
    simp only [acknowledgePayload, ack, pending, transmitted, Bool.and_true, Bool.true_and,
      ge_iff_le, decide_eq_true_eq]
    split
    · next seen => exact ⟨fun _ => seen, fun _ => rfl⟩
    · next unseen => exact ⟨fun clear => absurd (pending.symm.trans clear) (by simp),
        fun seen => absurd seen unseen⟩
  rw [cleared]
  cases state : world.tcp.state with
  | closed => exact absurd state alive
  | synSent => exact absurd state connected
  | established =>
      have counted := (placements.established state).2
      simp only [Tcp.unsent, transmitted, Bool.not_true, Bool.and_false,
        Bool.false_eq_true, ↓reduceIte, Nat.sub_zero] at counted
      exact ⟨fun _ => .inl rfl, fun _ => by rw [counted, covered]; exact BitVec.le_refl _⟩
  | finWait =>
  have counted := (placements.finWait state).2.1
  rw [← covered] at counted
  simp only [reduceCtorEq, false_or]
  generalize segment.acknowledgement = number at counted
  rw [counted]
  constructor
  · intro seen
    bv_omega
  · intro zero
    rw [zero]
    exact Nat.zero_le _

/-- In every run in which connections are closed carefully, every `FIN` follows the
payload; and an acknowledgement of exactly the pending payload clears it exactly when
the connection is open or `local_seq` is zero. -/
theorem tcp_fin_follows_payload {callbacks : Callbacks κ σ} (careful : callbacks.Careful)
    {start finish : World κ σ} {events : List (TcpEvent κ σ)}
    (fresh : start.tcp = Tcp.initial)
    (run : Run (fun world event world' => TcpStep callbacks world event world' ∧
      event.Careful world) start events finish) :
    (∀ connection ∈ finish.tcp.past ++ [finish.tcp.current], connection.FinFollows) ∧
      ∀ src dst bytes segment, acceptSegment finish src dst bytes = some segment →
        finish.tcp.state ≠ .synSent → segment.CoversExactly finish.tcp →
          ((acknowledgePayload finish segment).tcp.txPending = false ↔
            finish.tcp.state = .established ∨ finish.tcp.localSeq = 0) := by
  have following : Following finish.tcp := by
    refine @Run.invariant _ _ _ _ _ _ (fun world => Following world.tcp) (fun _ => True) ?_ run
      (fresh ▸ .fresh) (fun _ _ => trivial)
    rintro world event world' following - ⟨rfl, carefully⟩
    exact tcpAfter_following careful following carefully
  refine ⟨following.finFollows, ?_⟩
  intro src dst bytes segment accepted connected covers
  exact acknowledgePayload_exact following connected (acceptSegment_alive accepted) covers

theorem idleCallbacks_careful : idleCallbacks.Careful :=
  ⟨fun _ _ _ => .refl, fun _ _ _ => .refl, fun _ _ _ => .refl⟩

/-- The stack hears of other hosts. -/
def hearOf (world : World Unit Unit) (hosts : List (Ipv4 × Mac)) : TcpEvent Unit Unit :=
  .other (hosts.foldl (fun stack host => arpCacheLearn stack host.1 host.2) world.stack)
    world.dns world.user

/-- Sixteen hosts, as many as the cache has entries. -/
def sixteenHosts : List (Ipv4 × Mac) :=
  (List.range 16).map fun index =>
    (0x0A000264 + BitVec.ofNat 32 index, 0x525500000264 + BitVec.ofNat 48 index)

/-- The payload waits because the address of the peer was forgotten. -/
def waitingEvents : List (TcpEvent Unit Unit) :=
  greetingEvents ++
    [hearOf (tcpFinish idleCallbacks neighbourWorld greetingEvents) sixteenHosts,
      .send (ascii "GET /")]

/-- The address is learned again, and the connection is closed before the next poll. -/
def earlyCloseEvents : List (TcpEvent Unit Unit) :=
  waitingEvents ++
    [hearOf (tcpFinish idleCallbacks neighbourWorld waitingEvents)
      [(0x0A000202, 0x525500000202)], .close]

/-- The `FIN` takes the number of the first payload byte. -/
theorem tcp_fin_overtakes_payload :
    Run (TcpStep idleCallbacks) neighbourWorld earlyCloseEvents
        (tcpFinish idleCallbacks neighbourWorld earlyCloseEvents) ∧
      ¬ (tcpFinish idleCallbacks neighbourWorld earlyCloseEvents).tcp.current.FinFollows := by
  refine ⟨run_tcpFinish _ _ _, fun follows => ?_⟩
  have emissions : (tcpFinish idleCallbacks neighbourWorld earlyCloseEvents).tcp.current.emissions =
      [⟨.syn, initialSequence 49152 80, 0, [], .done 54⟩,
        ⟨.handshake, initialSequence 49152 80 + 2, 1001, [], .done 54⟩,
        ⟨.payload 0, initialSequence 49152 80 + 2, 1001, ascii "GET /", .resolving⟩,
        ⟨.fin, initialSequence 49152 80 + 2, 1001, [], .done 54⟩] := by
    decide +kernel
  generalize (tcpFinish idleCallbacks neighbourWorld earlyCloseEvents).tcp.current = connection
    at follows emissions
  have shared := follows.separate
    ⟨.fin, initialSequence 49152 80 + 2, 1001, [], .done 54⟩ (by simp [emissions])
    ⟨rfl, by simp⟩
    ⟨.payload 0, initialSequence 49152 80 + 2, 1001, ascii "GET /", .resolving⟩
    (by simp [emissions]) 0 rfl 0 (by decide)
  exact shared (by decide)

/-- A payload that was sent, and not acknowledged, before the connection is closed. -/
def sentEvents : List (TcpEvent Unit Unit) := greetingEvents ++ [.send (ascii "GET /")]

/-- The general statement at a close with such a payload. -/
theorem tcp_fin_follows_payload_sent :
    (tcpAfter idleCallbacks (tcpFinish idleCallbacks neighbourWorld sentEvents)
        .close).tcp.state = .finWait ∧
      ∀ connection ∈
        (tcpAfter idleCallbacks (tcpFinish idleCallbacks neighbourWorld sentEvents)
          .close).tcp.past ++
        [(tcpAfter idleCallbacks (tcpFinish idleCallbacks neighbourWorld sentEvents)
          .close).tcp.current], connection.FinFollows := by
  refine ⟨by decide +kernel, ?_⟩
  have unclosed : ∀ front event back, sentEvents = front ++ event :: back →
      event.Careful (tcpFinish idleCallbacks neighbourWorld front) := by
    intro front event back split
    have member : event ∈ sentEvents := by simp [split]
    cases event with
    | close => simp [sentEvents, greetingEvents] at member
    | _ => trivial
  have transmitted : (tcpFinish idleCallbacks neighbourWorld sentEvents).tcp.txTransmitted =
      true := by
    decide +kernel
  have few : (tcpFinish idleCallbacks neighbourWorld sentEvents).tcp.current.accepted.length <
      2 ^ 32 := by
    decide +kernel
  have run := run_tcpFinish_of unclosed
  generalize tcpFinish idleCallbacks neighbourWorld sentEvents = world at transmitted few run ⊢
  have carefully : ClosesCarefully world := by
    refine fun _ => ⟨fun _ untransmitted => ?_, few⟩
    rw [transmitted] at untransmitted
    cases untransmitted
  have step : TcpStep idleCallbacks world .close (tcpAfter idleCallbacks world .close) ∧
      TcpEvent.Careful world .close := ⟨rfl, carefully⟩
  exact (tcp_fin_follows_payload idleCallbacks_careful rfl (run.next step)).1

end Charis.Net
