import Charis.Net.TcpClose

/-!
# Acknowledgements of received payload

A peer that does not hear of its payload sends it again until it does.  In an open
connection `net_tcp_input` acknowledges the payload that it is waiting for, and every
segment with `FIN`.  A payload that it has already, or not yet use for, is dropped in
silence, so that an acknowledgement that was lost is never repeated.  An acknowledgement
gets out only while the next hop is in the ARP cache; otherwise a request takes its place.
-/

namespace Charis.Net

open Charis.Lib

variable {κ σ : Type}

/-- The segments that a connection has emitted between two worlds. -/
def emittedSince (before after : World κ σ) : List Emission :=
  after.tcp.current.emissions.drop before.tcp.current.emissions.length

/-- An acknowledgement of everything that was received was emitted, and the device has taken
it. -/
def AckSent (before after : World κ σ) : Prop :=
  ∃ emission ∈ emittedSince before after,
    emission.kind = .acknowledge ∧ emission.acknowledgement = after.tcp.remoteSeq ∧
      emission.result.ok = true

/-- A datagram for an address can be put on the link at once: there is a next hop, and it is in
the ARP cache unless the address is the stack's own. -/
def Stack.Reaches (stack : Stack) (destination : Ipv4) : Prop :=
  stack.ensureReady.ipIsConfigured = true ∧ stack.ensureReady.nic.initialized = true ∧
    ∃ nextHop, routeIpv4 stack.ensureReady destination = some nextHop ∧
      (destination = stack.ensureReady.localIp ∨
        nextHop ≠ 0 ∧ (stack.ensureReady.findArp nextHop).isSome)

theorem Stack.reaches_neighbour {stack : Stack} {destination nextHop : Ipv4}
    (configured : stack.ensureReady.ipIsConfigured = true)
    (initialized : stack.ensureReady.nic.initialized = true)
    (routed : routeIpv4 stack.ensureReady destination = some nextHop) (proper : nextHop ≠ 0)
    (known : (stack.ensureReady.findArp nextHop).isSome) : stack.Reaches destination :=
  ⟨configured, initialized, nextHop, routed, .inr ⟨proper, known⟩⟩

/-- What decides whether a datagram gets out. -/
structure Path where
  localIp : Ipv4
  localMask : Ipv4
  defaultGateway : Ipv4
  arpCache : Fin 16 → ArpEntry
  initialized : Bool
  confirms : Nat → Bool

def Stack.path (stack : Stack) : Path where
  localIp := stack.ensureReady.localIp
  localMask := stack.ensureReady.localMask
  defaultGateway := stack.ensureReady.defaultGateway
  arpCache := stack.ensureReady.arpCache
  initialized := stack.ensureReady.nic.initialized
  confirms := stack.ensureReady.nic.confirms

theorem Stack.reaches_congr {before after : Stack} (same : after.path = before.path)
    (destination : Ipv4) : after.Reaches destination ↔ before.Reaches destination := by
  simp only [Stack.path, Path.mk.injEq] at same
  obtain ⟨localIp, localMask, defaultGateway, arpCache, initialized, -⟩ := same
  simp only [Stack.Reaches, Stack.ipIsConfigured, routeIpv4, Stack.findArp, localIp, localMask,
    defaultGateway, arpCache, initialized]
  exact Iff.rfl

theorem Stack.path_of_ready {before after : Stack} (ready : after.ready = true)
    (localIp : after.localIp = before.ensureReady.localIp)
    (localMask : after.localMask = before.ensureReady.localMask)
    (defaultGateway : after.defaultGateway = before.ensureReady.defaultGateway)
    (arpCache : after.arpCache = before.ensureReady.arpCache)
    (initialized : after.nic.initialized = before.ensureReady.nic.initialized)
    (confirms : after.nic.confirms = before.ensureReady.nic.confirms) :
    after.path = before.path := by
  simp only [Stack.path, ensureReady_of_ready ready, localIp, localMask, defaultGateway, arpCache,
    initialized, confirms]

theorem path_ensureReady (stack : Stack) : stack.ensureReady.path = stack.path :=
  Stack.path_of_ready (ensureReady_ready stack) rfl rfl rfl rfl rfl rfl

theorem path_transmit (stack : Stack) (frame : List UInt8) :
    (stack.ensureReady.transmit frame).2.path = stack.path := by
  have nic : (stack.ensureReady.transmit frame).2.nic.initialized =
        stack.ensureReady.nic.initialized ∧
      (stack.ensureReady.transmit frame).2.nic.confirms = stack.ensureReady.nic.confirms := by
    simp only [Stack.transmit, netSendPacket]
    split <;> exact ⟨rfl, rfl⟩
  exact Stack.path_of_ready (ensureReady_ready stack) rfl rfl rfl rfl nic.1 nic.2

theorem netStackResolveIpv4_path (stack : Stack) (ip : Ipv4) :
    (netStackResolveIpv4 stack ip).2.path = stack.path := by
  simp only [netStackResolveIpv4]
  split
  · exact path_ensureReady stack
  split
  · exact path_ensureReady stack
  split
  · exact path_ensureReady stack
  · exact path_transmit stack _

/-- Sending does not change where datagrams get to. -/
theorem netIpv4Send_path (stack : Stack) (destination : Ipv4) (protocol : BitVec 8)
    (payload : List UInt8) :
    (netIpv4Send stack destination protocol payload).2.path = stack.path := by
  simp only [netIpv4Send]
  split
  · exact path_ensureReady stack
  split
  · exact path_ensureReady stack
  split
  · exact path_ensureReady stack
  next nextHop _ =>
  split
  · exact path_transmit stack _
  have asked := netStackResolveIpv4_path stack.ensureReady nextHop
  rw [path_ensureReady] at asked
  split
  · next found =>
    rw [found] at asked
    exact asked
  · next found =>
    have after := netStackResolveIpv4_known found
    rw [ensureReady_idem] at after
    rw [after]
    exact path_transmit stack _

theorem netStackResolveIpv4_isSome_iff {stack : Stack} (ready : stack.ensureReady = stack)
    (configured : stack.ipIsConfigured = true) (ip : Ipv4) :
    (netStackResolveIpv4 stack ip).1.isSome = true ↔ ip ≠ 0 ∧ (stack.findArp ip).isSome := by
  simp only [netStackResolveIpv4, ready, configured, Bool.not_true, Bool.false_eq_true, false_or]
  split
  · next zero => simp [zero]
  next given =>
  split
  · next slot found =>
    rw [found]
    exact iff_of_true rfl ⟨given, rfl⟩
  · next missing =>
    rw [missing]
    split <;> simp

/-- A datagram that has no way is not taken by the device. -/
theorem reaches_of_ok {stack : Stack} {destination : Ipv4} {protocol : BitVec 8}
    {payload : List UInt8}
    (sent : (netIpv4Send stack destination protocol payload).1.ok = true) :
    stack.Reaches destination := by
  simp only [netIpv4Send] at sent
  split at sent
  · cases sent
  next configured =>
  rw [not_or, Bool.not_eq_true', Bool.not_eq_false] at configured
  split at sent
  · cases sent
  next up =>
  rw [Bool.not_eq_true', Bool.not_eq_false] at up
  split at sent
  · cases sent
  next nextHop route =>
  refine ⟨configured.2, up, nextHop, route, ?_⟩
  split at sent
  · next own => exact .inl own
  have known := netStackResolveIpv4_isSome_iff (ensureReady_idem stack) configured.2 nextHop
  split at sent
  · cases sent
  · next found =>
    rw [found] at known
    exact .inr (known.mp rfl)

theorem transmit_ok {stack : Stack} {frame : List UInt8} (up : stack.nic.initialized = true)
    (confirms : ∀ n, stack.nic.confirms n = true) (filled : frame.length ≠ 0)
    (short : frame.length ≤ frameCap) : (stack.transmit frame).1.ok = true := by
  simp [Stack.transmit, netSendPacket, up, confirms, filled, Nat.not_lt.mpr short, Sent.ok]

theorem length_ipv4Frame (stack : Stack) (dest : Mac) (protocol : BitVec 8) (dst : Ipv4)
    (payload : List UInt8) :
    (ipv4Frame stack dest protocol dst payload).length = 34 + payload.length := by
  simp only [ipv4Frame, ethernetHeader, ipv4Header, macBytes, be16, be32, List.length_append,
    List.length_cons, List.length_nil]

/-- A datagram that has one is taken, as long as the device confirms what it is given. -/
theorem ok_of_reaches {stack : Stack} {destination : Ipv4} (reaches : stack.Reaches destination)
    (confirms : ∀ n, stack.path.confirms n = true) (protocol : BitVec 8) {payload : List UInt8}
    (short : payload.length ≤ 1502) :
    (netIpv4Send stack destination protocol payload).1.ok = true := by
  obtain ⟨configured, up, nextHop, route, way⟩ := reaches
  have taken (dest : Mac) : (stack.ensureReady.transmit
      (ipv4Frame stack.ensureReady dest protocol destination payload)).1.ok = true := by
    apply transmit_ok up confirms
    · rw [length_ipv4Frame]
      omega
    · rw [length_ipv4Frame, frameCap]
      omega
  have fits : ¬ payload.length > frameCap - 34 := by
    simp only [frameCap]
    omega
  simp only [netIpv4Send, fits, configured, up, route, Bool.not_true, Bool.false_eq_true,
    or_false, ↓reduceIte]
  split
  · exact taken _
  next other =>
  have known := (netStackResolveIpv4_isSome_iff (ensureReady_idem stack) configured nextHop).mpr
    (way.resolve_left other)
  split
  · next found =>
    rw [found] at known
    cases known
  · next found =>
    have after := netStackResolveIpv4_known found
    rw [ensureReady_idem] at after
    rw [after]
    exact taken _

/-- The segment does not break the connection off, and it starts where the connection
has got to or ends the stream. -/
def Segment.GetsAnswer (segment : Segment) (tcp : Tcp κ) : Prop :=
  segment.hasRst = false ∧ (segment.sequence = tcp.remoteSeq ∨ segment.hasFin = true)

/-- The same connection, later, with nothing more received and nothing more acknowledged. -/
structure Continues (before after : World κ σ) : Prop where
  emissions : ∃ added, after.tcp.current.emissions = before.tcp.current.emissions ++ added ∧
    ∀ emission ∈ added, emission.kind ≠ .acknowledge
  remoteSeq : after.tcp.remoteSeq = before.tcp.remoteSeq
  remoteIp : after.tcp.remoteIp = before.tcp.remoteIp

namespace Continues

theorem of_same {before after : World κ σ}
    (emissions : after.tcp.current.emissions = before.tcp.current.emissions)
    (remoteSeq : after.tcp.remoteSeq = before.tcp.remoteSeq)
    (remoteIp : after.tcp.remoteIp = before.tcp.remoteIp) : Continues before after :=
  ⟨⟨[], by rw [emissions, List.append_nil], by simp⟩, remoteSeq, remoteIp⟩

theorem refl (world : World κ σ) : Continues world world := .of_same rfl rfl rfl

theorem trans {first second third : World κ σ} (front : Continues first second)
    (back : Continues second third) : Continues first third := by
  obtain ⟨added, emissions, other⟩ := front.emissions
  obtain ⟨added', emissions', other'⟩ := back.emissions
  refine ⟨⟨added ++ added', by rw [emissions', emissions, List.append_assoc], ?_⟩,
    back.remoteSeq.trans front.remoteSeq, back.remoteIp.trans front.remoteIp⟩
  intro emission member
  exact (List.mem_append.mp member).elim (other emission) (other' emission)

theorem grown {before after : World κ σ} (continues : Continues before after) :
    before.tcp.current.emissions <+: after.tcp.current.emissions := by
  obtain ⟨added, emissions, -⟩ := continues.emissions
  exact ⟨added, emissions.symm⟩

end Continues

theorem netTcpSend_continues (world : World κ σ) (data : List UInt8) :
    Continues world (netTcpSend world data).2 := by
  simp only [netTcpSend]
  split
  · exact .refl world
  split
  · exact .refl world
  simp only [emitSegment_tcp]
  generalize (emitSegment _ _ _ _ _ _).1 = result
  cases result <;> exact ⟨⟨[_], rfl, by simp⟩, rfl, rfl⟩

theorem netTcpClose_continues (world : World κ σ) : Continues world (netTcpClose world) := by
  simp only [netTcpClose]
  split
  · have closing : Continues world (emitSegment world (fun _ => .fin) 0x11 world.tcp.localSeq
        world.tcp.remoteSeq []).2 := by
      refine ⟨⟨[_], by rw [emitSegment_tcp, Tcp.note], by simp⟩, ?_, ?_⟩
      · rw [emitSegment_tcp]
        rfl
      · rw [emitSegment_tcp]
        rfl
    split
    · exact ⟨closing.emissions, closing.remoteSeq, closing.remoteIp⟩
    · exact ⟨closing.emissions, closing.remoteSeq, closing.remoteIp⟩
  · exact .of_same rfl rfl rfl

theorem SessionCalls.continues {world world' : World κ σ} (calls : SessionCalls world world') :
    Continues world world' :=
  @SessionCalls.keeps _ _ (Continues world) _ _ calls (.refl world)
    (fun now data before => before.trans (netTcpSend_continues now data))
    (fun now before => before.trans (netTcpClose_continues now))
    (fun _ _ _ _ before => ⟨before.emissions, before.remoteSeq, before.remoteIp⟩)

theorem callIf_continues {call : κ → World κ σ → World κ σ}
    (session : ∀ key world, SessionCalls world (call key world)) (key : Option κ)
    (world : World κ σ) : Continues world (callIf key call world) := by
  cases key with
  | none => exact .refl world
  | some key => exact (session key world).continues

/-- Nothing is emitted once the connection has ended. -/
theorem SessionCalls.silent {world world' : World κ σ} (calls : SessionCalls world world')
    (closed : world.tcp.state = .closed) :
    world'.tcp.state = .closed ∧
      world'.tcp.current.emissions = world.tcp.current.emissions := by
  refine @SessionCalls.keeps _ _ (fun now => now.tcp.state = .closed ∧
    now.tcp.current.emissions = world.tcp.current.emissions) _ _ calls ⟨closed, rfl⟩ ?_ ?_
    fun _ _ _ _ before => before
  · intro now data before
    simp only [netTcpSend, before.1]
    exact before
  · intro now before
    simp only [netTcpClose, before.1]
    exact ⟨rfl, before.2⟩

theorem callIf_silent {call : κ → World κ σ → World κ σ}
    (session : ∀ key world, SessionCalls world (call key world)) (key : Option κ)
    {world : World κ σ} (closed : world.tcp.state = .closed) :
    (callIf key call world).tcp.current.emissions = world.tcp.current.emissions := by
  cases key with
  | none => rfl
  | some key => exact ((session key world).silent closed).2

/-- Datagrams of the connection go the same way. -/
structure SameWay (before after : World κ σ) : Prop where
  path : after.stack.path = before.stack.path
  remoteIp : after.tcp.remoteIp = before.tcp.remoteIp

theorem SameWay.trans {first second third : World κ σ} (front : SameWay first second)
    (back : SameWay second third) : SameWay first third :=
  ⟨back.path.trans front.path, back.remoteIp.trans front.remoteIp⟩

theorem SameWay.reaches {before after : World κ σ} (same : SameWay before after) :
    after.stack.Reaches after.tcp.remoteIp ↔ before.stack.Reaches before.tcp.remoteIp := by
  rw [same.remoteIp]
  exact Stack.reaches_congr same.path _

theorem emitAck_sameWay (world : World κ σ) : SameWay world (emitAck world) := by
  constructor
  · exact netIpv4Send_path ..
  · rw [emitAck, emitSegment_tcp]
    rfl

/-- The data callback takes part in nothing that decides where datagrams get to. -/
def Callbacks.KeepsPath (callbacks : Callbacks κ σ) : Prop :=
  ∀ key bytes (world : World κ σ), (callbacks.tcpData key bytes world).stack.path = world.stack.path

/-- None of the acknowledgements that have been added was taken by the device. -/
def Unheard (before after : World κ σ) : Prop :=
  ∃ added, after.tcp.current.emissions = before.tcp.current.emissions ++ added ∧
    ∀ emission ∈ added, emission.kind = .acknowledge → emission.result.ok = false

namespace Unheard

variable {before now after : World κ σ}

theorem continues (unheard : Unheard before now) (more : Continues now after) :
    Unheard before after := by
  obtain ⟨added, emissions, unheard⟩ := unheard
  obtain ⟨added', emissions', other⟩ := more.emissions
  refine ⟨added ++ added', by rw [emissions', emissions, List.append_assoc], ?_⟩
  intro emission member acknowledges
  rcases List.mem_append.mp member with early | late
  · exact unheard emission early acknowledges
  · exact absurd acknowledges (other emission late)

/-- An acknowledgement that has no way to the peer. -/
theorem emitAck (unheard : Unheard before now)
    (lost : ¬ now.stack.Reaches now.tcp.remoteIp) : Unheard before (emitAck now) := by
  obtain ⟨added, emissions, unheard⟩ := unheard
  refine ⟨added ++ [_], by rw [Net.emitAck, emitSegment_tcp, Tcp.note, emissions,
    List.append_assoc], ?_⟩
  intro emission member acknowledges
  rcases List.mem_append.mp member with early | late
  · exact unheard emission early acknowledges
  · rw [List.mem_singleton.mp late]
    exact Bool.eq_false_iff.mpr fun sent => lost (reaches_of_ok sent)

theorem not_ackSent (unheard : Unheard before after) : ¬ AckSent before after := by
  obtain ⟨added, emissions, unheard⟩ := unheard
  rintro ⟨emission, member, kind, -, sent⟩
  rw [emittedSince, emissions, List.drop_left] at member
  rw [unheard emission member kind] at sent
  cases sent

end Unheard

section Answers

variable {before now later : World κ σ}

/-- An acknowledgement that comes after everything there was before. -/
theorem answered_emitAck
    (grown : before.tcp.current.emissions <+: now.tcp.current.emissions)
    (reaches : now.stack.Reaches now.tcp.remoteIp)
    (confirms : ∀ n, now.stack.path.confirms n = true) : AckSent before (emitAck now) := by
  obtain ⟨emissions, grown⟩ := grown
  refine ⟨⟨.acknowledge, now.tcp.localSeq, now.tcp.remoteSeq, [], ?result⟩, ?_, rfl, ?_, ?_⟩
  case result => exact (emitSegment now (fun _ => .acknowledge) 0x10 now.tcp.localSeq
    now.tcp.remoteSeq []).1
  · rw [emittedSince, emitAck, emitSegment_tcp]
    simp [Tcp.note, ← grown]
  · rw [emitAck, emitSegment_tcp]
    rfl
  · exact ok_of_reaches reaches confirms 6 (by simp [tcpSegment, be16, be32])

theorem AckSent.continues (ackSent : AckSent before now) (more : Continues now later) :
    AckSent before later := by
  obtain ⟨emission, member, kind, number, sent⟩ := ackSent
  refine ⟨emission, ?_, kind, number.trans more.remoteSeq.symm, sent⟩
  exact (more.grown.drop _).subset member

theorem countPayload_sameWay (world : World κ σ) (payload : List UInt8) :
    (countPayload world payload).tcp.current.emissions = world.tcp.current.emissions ∧
      SameWay world (countPayload world payload) := by
  simp only [countPayload]
  split <;> exact ⟨rfl, rfl, rfl⟩

theorem acknowledgePayload_sameWay (world : World κ σ) (segment : Segment) :
    (acknowledgePayload world segment).tcp.current.emissions = world.tcp.current.emissions ∧
      SameWay world (acknowledgePayload world segment) := by
  simp only [acknowledgePayload]
  split <;> exact ⟨rfl, rfl, rfl⟩

theorem clearForClose_continues (world : World κ σ) (clean : Bool) :
    Continues world (clearForClose world clean) := by
  simp only [clearForClose, Tcp.noteClose]
  split <;> exact .of_same rfl rfl rfl

variable {callbacks : Callbacks κ σ} (session : callbacks.WithinSession)
  (keeps : callbacks.KeepsPath)

include session keeps

/-- The world in which a payload that was delivered is acknowledged. -/
theorem deliverPayload_told (world : World κ σ) (payload : List UInt8) :
    ∃ told, deliverPayload callbacks world payload = emitAck told ∧
      Continues (countPayload world payload) told ∧ SameWay world told := by
  have told := callIf_continues (fun key => session.data key payload)
    (countPayload world payload).tcp.dataCallback (countPayload world payload)
  refine ⟨_, rfl, told, (countPayload_sameWay world payload).2.trans ⟨?_, told.remoteIp⟩⟩
  cases (countPayload world payload).tcp.dataCallback with
  | none => rfl
  | some key => exact keeps key payload _

theorem receivePayload_told (segment : Segment) (world : World κ σ) :
    world.tcp.current.emissions <+:
        (receivePayload callbacks world segment).tcp.current.emissions ∧
      SameWay world (receivePayload callbacks world segment) ∧
      (¬ world.stack.Reaches world.tcp.remoteIp →
        Unheard world (receivePayload callbacks world segment)) := by
  simp only [receivePayload]
  split
  · obtain ⟨told, delivered, continues, way⟩ :=
      deliverPayload_told session keeps world segment.payload
    have same := (countPayload_sameWay world segment.payload).1
    obtain ⟨added, emissions, other⟩ := continues.emissions
    rw [same] at emissions
    rw [delivered]
    refine ⟨?_, way.trans (emitAck_sameWay told), fun lost => ?_⟩
    · rw [emitAck, emitSegment_tcp, Tcp.note, emissions, List.append_assoc]
      exact List.prefix_append _ _
    · refine Unheard.emitAck ⟨added, emissions, fun emission member acknowledges => ?_⟩ ?_
      · exact absurd acknowledges (other emission member)
      · rwa [way.reaches]
  · exact ⟨List.prefix_rfl, ⟨rfl, rfl⟩, fun _ => ⟨[], by simp, by simp⟩⟩

theorem answered_receivePayload {segment : Segment} {before world : World κ σ}
    (payload : segment.payload ≠ []) (next : segment.sequence = world.tcp.remoteSeq)
    (grown : before.tcp.current.emissions <+: world.tcp.current.emissions)
    (reaches : world.stack.Reaches world.tcp.remoteIp)
    (confirms : ∀ n, world.stack.path.confirms n = true) :
    AckSent before (receivePayload callbacks world segment) := by
  simp only [receivePayload, if_pos (And.intro payload next)]
  obtain ⟨told, delivered, more, way⟩ := deliverPayload_told session keeps world segment.payload
  have same := (countPayload_sameWay world segment.payload).1
  rw [delivered]
  apply answered_emitAck (grown.trans (same ▸ more.grown)) (way.reaches.mpr reaches)
  rwa [way.path]

omit keeps

theorem inputFin_told (segment : Segment) (world : World κ σ) : ∃ advanced, SameWay world advanced ∧
    advanced.tcp.current.emissions = world.tcp.current.emissions ∧
    Continues (emitAck advanced) (inputFin callbacks world segment) := by
  simp only [inputFin]
  generalize (if segment.sequence + BitVec.ofNat 32 segment.payload.length =
    world.tcp.remoteSeq then (1 : BitVec 32) else 0) = count
  exact ⟨advanceRemote world count, ⟨rfl, rfl⟩, rfl,
    (clearForClose_continues _ true).trans (callIf_continues (fun key => session.close key true)
      (emitAck (advanceRemote world count)).tcp.closeCallback _)⟩

end Answers

theorem not_answered {before after : World κ σ}
    (same : after.tcp.current.emissions = before.tcp.current.emissions) :
    emittedSince before after = [] ∧ ¬ AckSent before after := by
  have nothing : emittedSince before after = [] := by
    simp [emittedSince, same]
  refine ⟨nothing, ?_⟩
  rintro ⟨emission, member, -⟩
  rw [nothing] at member
  cases member

section Silence

variable {callbacks : Callbacks κ σ} {world : World κ σ} {segment : Segment}

theorem abortConnection_silent (session : callbacks.WithinSession)
    (opened : world.tcp.state = .established) :
    (abortConnection callbacks world).tcp.current.emissions =
      world.tcp.current.emissions := by
  simp only [abortConnection, opened, reduceCtorEq, false_and, ↓reduceIte]
  rw [callIf_silent (fun key => session.close key false) _ rfl]
  simp only [clearForClose, Tcp.noteClose]
  split <;> rfl

/-- A payload that starts anywhere else is dropped in silence. -/
theorem inputOpen_silent (opened : world.tcp.state = .established)
    (misplaced : segment.sequence ≠ world.tcp.remoteSeq) (unfinished : segment.hasFin = false) :
    (inputOpen callbacks world segment).tcp.current.emissions =
      world.tcp.current.emissions := by
  have state : (acknowledgePayload world segment).tcp.state = .established := by
    simp only [acknowledgePayload]
    split <;> exact opened
  have passed : receivePayload callbacks (acknowledgePayload world segment) segment =
      acknowledgePayload world segment := by
    simp [receivePayload, misplaced]
  simp only [inputOpen, passed, unfinished, state, reduceCtorEq, decide_false, Bool.false_and,
    Bool.false_eq_true, ↓reduceIte]
  simp only [acknowledgePayload]
  split <;> rfl

end Silence

theorem path_confirms (stack : Stack) : stack.path.confirms = stack.nic.confirms := by
  simp only [Stack.path, Stack.ensureReady]
  split <;> rfl

/-- Without a way to the peer no acknowledgement gets out. -/
theorem inputOpen_unheard {callbacks : Callbacks κ σ} (session : callbacks.WithinSession)
    (keeps : callbacks.KeepsPath) {world : World κ σ} (segment : Segment)
    (lost : ¬ world.stack.Reaches world.tcp.remoteIp) :
    Unheard world (inputOpen callbacks world segment) := by
  obtain ⟨same, way⟩ := acknowledgePayload_sameWay world segment
  obtain ⟨-, way', unheard⟩ :=
    receivePayload_told session keeps segment (acknowledgePayload world segment)
  have unheard := unheard (by rwa [way.reaches])
  unfold Unheard at unheard
  rw [same] at unheard
  simp only [inputOpen]
  split
  · obtain ⟨advanced, onward, emissions, told⟩ := inputFin_told session segment
      (receivePayload callbacks (acknowledgePayload world segment) segment)
    refine Unheard.continues (Unheard.emitAck ?_ ?_) told
    · unfold Unheard
      rwa [emissions]
    · rwa [onward.reaches, way'.reaches, way.reaches]
  · split <;> exact unheard

/-- A payload that arrives in an open connection is answered exactly when its segment does
not break the connection off and starts where the connection has got to or carries `FIN`, and
there is a way to the peer.  Every segment of another kind is passed over: nothing at all is
emitted. -/
theorem tcp_payload_acknowledged {callbacks : Callbacks κ σ}
    (session : callbacks.WithinSession) (keeps : callbacks.KeepsPath) {world : World κ σ}
    (confirms : ∀ n, world.stack.nic.confirms n = true) {src dst : Ipv4}
    {bytes : List UInt8} {segment : Segment}
    (accepted : acceptSegment world src dst bytes = some segment)
    (opened : world.tcp.state = .established) (payload : segment.payload ≠ []) :
    (AckSent world (netTcpInput callbacks world src dst bytes) ↔
        segment.GetsAnswer world.tcp ∧ world.stack.Reaches world.tcp.remoteIp) ∧
      (¬ segment.GetsAnswer world.tcp →
        emittedSince world (netTcpInput callbacks world src dst bytes) = []) := by
  have silent : ¬ segment.GetsAnswer world.tcp →
      (netTcpInput callbacks world src dst bytes).tcp.current.emissions =
        world.tcp.current.emissions := by
    intro passed
    simp only [netTcpInput, accepted]
    split
    · exact abortConnection_silent session opened
    next unbroken =>
    rw [Bool.not_eq_true] at unbroken
    simp only [Segment.GetsAnswer, unbroken, true_and, not_or, Bool.not_eq_true] at passed
    rw [if_neg (by simp [opened])]
    exact inputOpen_silent opened passed.1 passed.2
  refine ⟨⟨fun ackSent => ?_, fun both => ?_⟩, fun passed => (not_answered (silent passed)).1⟩
  · have gets : segment.GetsAnswer world.tcp := by
      by_contra passed
      exact (not_answered (silent passed)).2 ackSent
    refine ⟨gets, ?_⟩
    by_contra lost
    simp only [netTcpInput, accepted, gets.1, Bool.false_eq_true, ↓reduceIte, opened,
      reduceCtorEq] at ackSent
    exact (inputOpen_unheard session keeps segment lost).not_ackSent ackSent
  obtain ⟨gets, reaches⟩ := both
  obtain ⟨same, way⟩ := acknowledgePayload_sameWay world segment
  obtain ⟨grown, way', -⟩ :=
    receivePayload_told session keeps segment (acknowledgePayload world segment)
  have confirms : ∀ n, world.stack.path.confirms n = true := by rwa [path_confirms]
  simp only [netTcpInput, accepted, gets.1, Bool.false_eq_true, ↓reduceIte, opened, reduceCtorEq]
  simp only [inputOpen]
  split
  · obtain ⟨advanced, onward, emissions, told⟩ := inputFin_told session segment
      (receivePayload callbacks (acknowledgePayload world segment) segment)
    have whole := way.trans (way'.trans onward)
    refine AckSent.continues (answered_emitAck ?_ (whole.reaches.mpr reaches) ?_) told
    · rw [emissions]
      exact same ▸ grown
    · rwa [whole.path]
  next unfinished =>
  have next := gets.2.resolve_right unfinished
  have ackSent : AckSent world (receivePayload callbacks (acknowledgePayload world segment)
      segment) := answered_receivePayload session keeps payload
    (next.trans (acknowledgePayload_remoteSeq world segment).symm) (by rw [same])
    (way.reaches.mpr reaches) (by rwa [way.path])
  split
  · exact ackSent.continues (.of_same rfl rfl rfl)
  · exact ackSent

/-- The first two bytes of the stream of the peer. -/
def firstBytes : List UInt8 :=
  tcpSegment 0x0A000202 0x0A00020F 80 49152 0x18 1001 (initialSequence 49152 80 + 2)
    (ascii "OK")

/-- The peer has sent them once. -/
def receivedWorld : World Unit Unit :=
  tcpFinish idleCallbacks neighbourWorld
    (greetingEvents ++ [.input 0x0A000202 0x0A00020F firstBytes])

/-- The acknowledgement was lost and the bytes arrive again: nothing is emitted. -/
theorem tcp_retransmission_unanswered :
    Run (TcpStep idleCallbacks) neighbourWorld
        (greetingEvents ++ [.input 0x0A000202 0x0A00020F firstBytes]) receivedWorld ∧
      receivedWorld.tcp.state = .established ∧
      acceptSegment receivedWorld 0x0A000202 0x0A00020F firstBytes =
        some ⟨1001, initialSequence 49152 80 + 2, 0x18, ascii "OK"⟩ ∧
      receivedWorld.stack.Reaches receivedWorld.tcp.remoteIp ∧
      emittedSince receivedWorld
        (netTcpInput idleCallbacks receivedWorld 0x0A000202 0x0A00020F firstBytes) = [] ∧
      ¬ AckSent receivedWorld
        (netTcpInput idleCallbacks receivedWorld 0x0A000202 0x0A00020F firstBytes) := by
  have facts : receivedWorld.tcp.state = .established ∧
      acceptSegment receivedWorld 0x0A000202 0x0A00020F firstBytes =
        some ⟨1001, initialSequence 49152 80 + 2, 0x18, ascii "OK"⟩ ∧
      (netTcpInput idleCallbacks receivedWorld 0x0A000202 0x0A00020F
          firstBytes).tcp.current.emissions = receivedWorld.tcp.current.emissions := by
    decide +kernel
  have way : receivedWorld.stack.ensureReady.ipIsConfigured = true ∧
      receivedWorld.stack.ensureReady.nic.initialized = true ∧
      routeIpv4 receivedWorld.stack.ensureReady receivedWorld.tcp.remoteIp = some 0x0A000202 ∧
      (receivedWorld.stack.ensureReady.findArp 0x0A000202).isSome := by
    decide +kernel
  exact ⟨run_tcpFinish _ _ _, facts.1, facts.2.1,
    Stack.reaches_neighbour way.1 way.2.1 way.2.2.1 (by decide) way.2.2.2,
    not_answered facts.2.2⟩

/-- The connection after its greetings, over an interface that has nothing to do. -/
def greetedWorld : World Unit Unit :=
  { neighbourWorld with tcp := (tcpFinish idleCallbacks neighbourWorld greetingEvents).tcp }

/-- The general statement when the bytes arrive for the first time. -/
theorem tcp_payload_acknowledged_first :
    AckSent greetedWorld
      (netTcpInput idleCallbacks greetedWorld 0x0A000202 0x0A00020F firstBytes) := by
  have facts : acceptSegment greetedWorld 0x0A000202 0x0A00020F firstBytes =
        some ⟨1001, initialSequence 49152 80 + 2, 0x18, ascii "OK"⟩ ∧
      greetedWorld.tcp.state = .established ∧ greetedWorld.tcp.remoteSeq = 1001 := by
    decide +kernel
  have way : greetedWorld.stack.ensureReady.ipIsConfigured = true ∧
      greetedWorld.stack.ensureReady.nic.initialized = true ∧
      routeIpv4 greetedWorld.stack.ensureReady greetedWorld.tcp.remoteIp = some 0x0A000202 ∧
      (greetedWorld.stack.ensureReady.findArp 0x0A000202).isSome := by
    decide +kernel
  have reaches : greetedWorld.stack.Reaches greetedWorld.tcp.remoteIp :=
    Stack.reaches_neighbour way.1 way.2.1 way.2.2.1 (by decide) way.2.2.2
  exact (tcp_payload_acknowledged idleCallbacks_withinSession (fun _ _ _ => rfl) (fun _ => rfl)
    facts.1 facts.2.1 (by decide)).1.mpr ⟨⟨by decide, .inl facts.2.2.symm⟩, reaches⟩

end Charis.Net
