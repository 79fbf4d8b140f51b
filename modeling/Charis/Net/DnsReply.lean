import Charis.Net.Encoding
import Charis.Net.Input
import Charis.Net.TcpRules

/-!
# Answers to queries

The resolver listens on the port it sends its queries to and not on the port it sends
them from.  A server answers to the latter, so that no answer that is built the
standard way ever reaches the code that waits for it.
-/

namespace Charis.Net

open Relation

variable {κ σ : Type}

/-- What other code can do to the ports and to the resolver: bind and unbind ports with
handlers of its own, initialise the resolver and start a lookup. -/
inductive ResolverCalls (world : World κ σ) : World κ σ → Prop
  | refl : ResolverCalls world world
  | bind {middle : World κ σ} (port : BitVec 16) (id : Option Nat) :
      ResolverCalls world middle →
      ResolverCalls world
        { middle with stack := (netUdpBind middle.stack port (id.map .other)).2 }
  | unbind {middle : World κ σ} (port : BitVec 16) :
      ResolverCalls world middle →
      ResolverCalls world { middle with stack := netUdpUnbind middle.stack port }
  | init {middle : World κ σ} :
      ResolverCalls world middle → ResolverCalls world (netDnsInit middle).2
  | query {middle : World κ σ} (hostname : List UInt8) (key : κ) :
      ResolverCalls world middle → ResolverCalls world (netDnsQuery middle hostname key).2
  | other {middle after : World κ σ} :
      ResolverCalls world middle → after.stack.udpBindings = middle.stack.udpBindings →
      after.dns = middle.dns → ResolverCalls world after

/-- All callbacks reach the ports and the resolver through their functions only. -/
structure Callbacks.ThroughResolver (callbacks : Callbacks κ σ) : Prop where
  dnsAnswer : ∀ key hostname address success world,
    ResolverCalls world (callbacks.dnsAnswer key hostname address success world)
  tcpConnect : ∀ key connected world,
    ResolverCalls world (callbacks.tcpConnect key connected world)
  tcpData : ∀ key bytes world, ResolverCalls world (callbacks.tcpData key bytes world)
  tcpClose : ∀ key clean world, ResolverCalls world (callbacks.tcpClose key clean world)
  udp : ∀ id port ip bytes world, ResolverCalls world (callbacks.udp id port ip bytes world)

theorem ResolverCalls.trans {first second third : World κ σ}
    (early : ResolverCalls first second) (late : ResolverCalls second third) :
    ResolverCalls first third := by
  induction late with
  | refl => exact early
  | bind port id _ ih => exact ih.bind port id
  | unbind port _ ih => exact ih.unbind port
  | init _ ih => exact ih.init
  | query hostname key _ ih => exact ih.query hostname key
  | other _ ports dns ih => exact ih.other ports dns

/-- The handler of the resolver is bound to its port only. -/
def Stack.ResolverPort (stack : Stack) : Prop :=
  ∀ slot, (stack.udpBindings slot).handler = some .dnsResponse →
    (stack.udpBindings slot).port = dnsPort

theorem netUdpBind_resolverPort {stack : Stack} (bound : stack.ResolverPort) {port : BitVec 16}
    {handler : Option UdpHandler} (fits : handler = some .dnsResponse → port = dnsPort) :
    (netUdpBind stack port handler).2.ResolverPort := by
  have rebind (slot : Fin 8) : Stack.ResolverPort { stack with
      udpBindings := Function.update stack.udpBindings slot ⟨port, handler⟩ } := by
    intro query
    by_cases same : query = slot
    · subst same
      simpa using fits
    · simpa [Function.update_of_ne same] using bound query
  simp only [netUdpBind]
  split
  · exact bound
  split
  · exact rebind _
  split
  · exact rebind _
  · exact bound

theorem netUdpUnbind_resolverPort {stack : Stack} (bound : stack.ResolverPort)
    (port : BitVec 16) : (netUdpUnbind stack port).ResolverPort := by
  simp only [netUdpUnbind]
  split
  · exact bound
  split
  · next slot _ =>
      intro query
      by_cases same : query = slot
      · subst same
        simp
      · simpa [Function.update_of_ne same] using bound query
  · exact bound

theorem netDnsInit_resolverPort {world : World κ σ} (bound : world.stack.ResolverPort) :
    (netDnsInit world).2.stack.ResolverPort := by
  simp only [netDnsInit]
  split
  · exact bound
  split
  · exact bound
  split
  · exact bound
  have after := @netUdpBind_resolverPort _ bound dnsPort (some .dnsResponse) fun _ => rfl
  split
  · next stack result => rwa [result] at after
  · next stack result => rwa [result] at after

theorem netDnsInit_answers (world : World κ σ) :
    (netDnsInit world).2.dns.answers = world.dns.answers := by
  simp only [netDnsInit]
  split
  · rfl
  split
  · rfl
  split
  · rfl
  split <;> rfl

theorem netDnsQuery_frame (world : World κ σ) (hostname : List UInt8) (key : κ) :
    (netDnsQuery world hostname key).2.stack = world.stack ∧
      (netDnsQuery world hostname key).2.dns.answers = world.dns.answers := by
  simp only [netDnsQuery]
  split
  · exact ⟨rfl, rfl⟩
  split <;> exact ⟨rfl, rfl⟩

theorem ResolverCalls.resolverPort {world world' : World κ σ}
    (calls : ResolverCalls world world') (bound : world.stack.ResolverPort) :
    world'.stack.ResolverPort := by
  induction calls with
  | refl => exact bound
  | bind port id _ ih => exact netUdpBind_resolverPort ih (by simp)
  | unbind port _ ih => exact netUdpUnbind_resolverPort ih port
  | init _ ih => exact netDnsInit_resolverPort ih
  | query hostname key _ ih =>
      rw [(netDnsQuery_frame _ hostname key).1]
      exact ih
  | other _ ports dns ih =>
      intro slot
      rw [ports]
      exact ih slot

theorem ResolverCalls.answers {world world' : World κ σ}
    (calls : ResolverCalls world world') : world'.dns.answers = world.dns.answers := by
  induction calls with
  | refl => rfl
  | bind port id _ ih => exact ih
  | unbind port _ ih => exact ih
  | init _ ih => exact (netDnsInit_answers _).trans ih
  | query hostname key _ ih => exact (netDnsQuery_frame _ hostname key).2.trans ih
  | other _ ports dns ih => exact (congrArg Dns.answers dns).trans ih

/-! ## Everything else keeps the ports -/

@[simp]
theorem ensureReady_udpBindings (stack : Stack) :
    stack.ensureReady.udpBindings = stack.udpBindings := by
  unfold Stack.ensureReady
  split <;> rfl

@[simp]
theorem transmit_udpBindings (stack : Stack) (frame : List UInt8) :
    (stack.transmit frame).2.udpBindings = stack.udpBindings := rfl

@[simp]
theorem netStackResolveIpv4_udpBindings (stack : Stack) (ip : Ipv4) :
    (netStackResolveIpv4 stack ip).2.udpBindings = stack.udpBindings := by
  simp only [netStackResolveIpv4]
  split
  · simp
  split
  · simp
  split <;> simp

theorem udpBindings_of_resolve {stack after : Stack} {ip : Ipv4} {mac : Option Mac}
    (resolved : netStackResolveIpv4 stack ip = (mac, after)) :
    after.udpBindings = stack.udpBindings := by
  have kept := netStackResolveIpv4_udpBindings stack ip
  rwa [resolved] at kept

@[simp]
theorem netIpv4Send_udpBindings (stack : Stack) (destination : Ipv4) (protocol : BitVec 8)
    (payload : List UInt8) :
    (netIpv4Send stack destination protocol payload).2.udpBindings = stack.udpBindings := by
  simp only [netIpv4Send]
  split
  · simp
  split
  · simp
  split
  · simp
  split
  · simp
  split
  · next after resolved => simpa using udpBindings_of_resolve resolved
  · next mac after resolved => simpa using udpBindings_of_resolve resolved

@[simp]
theorem netUdpSend_udpBindings (stack : Stack) (destination : Ipv4)
    (destinationPort sourcePort : BitVec 16) (payload : List UInt8) :
    (netUdpSend stack destination destinationPort sourcePort payload).2.udpBindings =
      stack.udpBindings := by
  simp only [netUdpSend]
  split
  · simp
  split
  · simp
  split
  · simp
  split
  · next after resolved => simpa using udpBindings_of_resolve resolved
  · next mac after resolved => simpa using udpBindings_of_resolve resolved

@[simp]
theorem arpCacheLearn_udpBindings (stack : Stack) (ip : Ipv4) (mac : Mac) :
    (arpCacheLearn stack ip mac).udpBindings = stack.udpBindings := by
  simp only [arpCacheLearn]
  split
  · rfl
  split <;> rfl

@[simp]
theorem handleArp_udpBindings (stack : Stack) (frame : List UInt8) :
    (handleArp stack frame).udpBindings = stack.udpBindings := by
  simp only [handleArp]
  split
  · rfl
  split
  · rfl
  split <;> simp

@[simp]
theorem handleIcmp_udpBindings (stack : Stack) (frame ip : List UInt8) (length : Nat) :
    (handleIcmp stack frame ip length).udpBindings = stack.udpBindings := by
  simp only [handleIcmp]
  repeat' split
  all_goals rfl

section Effects

variable {callbacks : Callbacks κ σ}

theorem emitSegment_resolverCalls (world : World κ σ) (kind : Sent → SegmentKind)
    (flags : BitVec 8) (sequence acknowledgement : BitVec 32) (payload : List UInt8) :
    ResolverCalls world
      (emitSegment world kind flags sequence acknowledgement payload).2 := by
  have rest := emitSegment_rest world kind flags sequence acknowledgement payload
  obtain ⟨bytes, stack⟩ := emitSegment_stack world kind flags sequence acknowledgement payload
  refine .other .refl ?_ rest.1
  rw [stack]
  exact netIpv4Send_udpBindings _ _ _ _

/-- Changes to the data of the TCP client. -/
theorem ResolverCalls.tcp {world middle : World κ σ} (calls : ResolverCalls world middle)
    (tcp : Tcp κ) : ResolverCalls world { middle with tcp } :=
  calls.other rfl rfl

theorem emitAck_resolverCalls (world : World κ σ) : ResolverCalls world (emitAck world) :=
  emitSegment_resolverCalls world _ _ _ _ _

theorem openConnection_resolverCalls (world : World κ σ) (segment : Segment) :
    ResolverCalls world (openConnection world segment) :=
  ((ResolverCalls.refl.tcp _).trans (emitSegment_resolverCalls _ _ _ _ _ _)).tcp _

theorem acknowledgePayload_resolverCalls (world : World κ σ) (segment : Segment) :
    ResolverCalls world (acknowledgePayload world segment) := by
  simp only [acknowledgePayload]
  split
  · exact ResolverCalls.refl.tcp _
  · exact .refl

theorem countPayload_resolverCalls (world : World κ σ) (payload : List UInt8) :
    ResolverCalls world (countPayload world payload) := by
  simp only [countPayload]
  split <;> exact .other .refl rfl rfl

theorem pollSyn_resolverCalls (world : World κ σ) : ResolverCalls world (pollSyn world).2 := by
  have sent := emitSegment_resolverCalls world (fun _ => .syn) 0x02 world.tcp.initialSeq 0 []
  simp only [pollSyn]
  generalize emitSegment _ _ _ _ _ _ = emitted at sent ⊢
  split
  · exact sent.tcp _
  · exact sent

theorem pollPayload_resolverCalls (world : World κ σ) :
    ResolverCalls world (pollPayload world).2 := by
  have sent := emitSegment_resolverCalls world
    (fun _ => .payload (world.tcp.current.accepted.length - world.tcp.txPayload.length))
    0x18 world.tcp.txSequence world.tcp.remoteSeq world.tcp.txPayload
  simp only [pollPayload]
  generalize emitSegment _ _ _ _ _ _ = emitted at sent ⊢
  split
  · exact sent.tcp _
  · exact sent

variable (through : callbacks.ThroughResolver)

include through

theorem stable_resolverCalls (base : World κ σ) : Stable callbacks (ResolverCalls base) where
  connect := fun key connected world before =>
    before.trans (through.tcpConnect key connected world)
  data := fun key bytes world before => before.trans (through.tcpData key bytes world)
  close := fun key clean world before => before.trans (through.tcpClose key clean world)
  clear := fun _ before => before.tcp _
  abort := fun _ before => before.tcp _
  acknowledge := fun world before => before.trans (emitAck_resolverCalls world)

theorem netTcpInput_resolverCalls (world : World κ σ) (src dst : Ipv4) (bytes : List UInt8) :
    ResolverCalls world (netTcpInput callbacks world src dst bytes) := by
  refine (stable_resolverCalls through world).netTcpInput .refl src dst bytes ?_
  intro segment _ _
  exact {
    opened := fun _ => openConnection_resolverCalls world segment
    first := fun _ _ now before _ => before.trans (countPayload_resolverCalls now _)
    acknowledged := fun _ => acknowledgePayload_resolverCalls world segment
    counted := fun _ _ _ => (acknowledgePayload_resolverCalls world segment).trans
      (countPayload_resolverCalls _ _)
    finished := fun _ _ before => (stable_resolverCalls through world).inputFin fun _ =>
      ((before.tcp _).trans (emitAck_resolverCalls _)).tcp _ }

theorem netTcpPoll_resolverCalls (world : World κ σ) :
    ResolverCalls world (netTcpPoll callbacks world) := by
  refine (stable_resolverCalls through world).netTcpPoll .refl (fun _ _ _ good => good.tcp _) ?_
  intro _ pollTicks before
  exact @pollTransmit_keeps _ _ (ResolverCalls world) _ before
    (fun _ => before.trans (pollSyn_resolverCalls _))
    (fun _ _ => before.trans (pollPayload_resolverCalls _))
    (fun _ _ => before.trans (emitSegment_resolverCalls _ _ _ _ _ _))

theorem finishQuery_resolverPort {world : World κ σ} (bound : world.stack.ResolverPort)
    (address : Option Ipv4) :
    (finishQuery callbacks world address).stack.ResolverPort := by
  simp only [finishQuery]
  cases world.dns.pendingCallback with
  | none => exact bound
  | some key => exact (through.dnsAnswer key _ _ _ _).resolverPort bound

theorem netDnsPoll_resolverPort {world : World κ σ} (bound : world.stack.ResolverPort) :
    (netDnsPoll callbacks world).stack.ResolverPort := by
  simp only [netDnsPoll]
  split
  · exact bound
  split
  · exact bound
  split
  · exact @finishQuery_resolverPort _ _ _ through
      { world with dns := { world.dns with pollTicks := 0 } } bound none
  · intro slot
    rw [netUdpSend_udpBindings]
    exact bound slot

theorem callUdpHandler_resolverPort {world : World κ σ} (bound : world.stack.ResolverPort)
    (handler : UdpHandler) (port : BitVec 16) (ip : Ipv4) (payload : List UInt8) :
    (callUdpHandler callbacks handler port ip payload world).stack.ResolverPort := by
  cases handler with
  | dnsResponse =>
      simp only [callUdpHandler, handleDnsResponse]
      split
      · exact bound
      · exact finishQuery_resolverPort through bound _
  | other id => exact (through.udp id port ip payload world).resolverPort bound

theorem handleUdp_resolverPort {world : World κ σ} (bound : world.stack.ResolverPort)
    (ip : List UInt8) (ipLength ihl : Nat) :
    (handleUdp callbacks world ip ipLength ihl).stack.ResolverPort := by
  simp only [handleUdp]
  split
  · exact bound
  split
  · exact bound
  split
  · exact bound
  split
  · exact bound
  · exact callUdpHandler_resolverPort through bound _ _ _ _

omit through in
theorem handleIpv4_cases {motive : World κ σ → Prop} {world : World κ σ} {frame : List UInt8}
    (ignored : motive world)
    (icmp : byteAt (frame.drop 14) 9 = 1 → motive { world with
      stack := handleIcmp world.stack frame (frame.drop 14)
        (readBe16 (frame.drop 14) 2).toNat })
    (udp : byteAt (frame.drop 14) 9 = 17 → motive (handleUdp callbacks world (frame.drop 14)
      (readBe16 (frame.drop 14) 2).toNat (headerLength (frame.drop 14))))
    (tcp : byteAt (frame.drop 14) 9 = 6 → ∀ src dst bytes,
      motive (netTcpInput callbacks world src dst bytes)) :
    motive (handleIpv4 callbacks world frame) := by
  unfold handleIpv4
  apply iteInduction (fun _ => ignored)
  intro _
  apply iteInduction (fun _ => ignored)
  intro _
  apply iteInduction (fun _ => ignored)
  intro _
  apply iteInduction (fun _ => ignored)
  intro _
  apply iteInduction (fun _ => ignored)
  intro _
  apply iteInduction (fun _ => ignored)
  intro _
  apply iteInduction icmp
  intro _
  apply iteInduction udp
  intro _
  exact iteInduction (fun inside => tcp inside _ _ _) fun _ => ignored

theorem handleIpv4_resolverPort {world : World κ σ} (bound : world.stack.ResolverPort)
    (frame : List UInt8) : (handleIpv4 callbacks world frame).stack.ResolverPort := by
  have echoed (stack : Stack) (same : stack.udpBindings = world.stack.udpBindings) :
      Stack.ResolverPort stack :=
    (ResolverCalls.other .refl same rfl :
      ResolverCalls world { world with stack }).resolverPort bound
  refine handleIpv4_cases (motive := fun after => after.stack.ResolverPort) bound ?_ ?_ ?_
  · intro _
    exact echoed _ (handleIcmp_udpBindings _ _ _ _)
  · intro _
    exact handleUdp_resolverPort through bound _ _ _
  · intro _ _ _ _
    exact (netTcpInput_resolverCalls through world _ _ _).resolverPort bound

theorem netHandleTcpip_resolverPort {world : World κ σ} (bound : world.stack.ResolverPort)
    (frame : List UInt8) : (netHandleTcpip callbacks world frame).stack.ResolverPort := by
  have ready : Stack.ResolverPort world.stack.ensureReady := by
    intro slot
    rw [ensureReady_udpBindings]
    exact bound slot
  simp only [netHandleTcpip]
  split
  · exact ready
  split
  · intro slot
    rw [handleArp_udpBindings]
    exact ready slot
  split
  · exact handleIpv4_resolverPort through ready frame
  · exact ready

/-- A datagram for another port than the resolver's answers no query. -/
theorem handleUdp_answers {world : World κ σ} (bound : world.stack.ResolverPort)
    {ip : List UInt8} {ihl : Nat} (elsewhere : readBe16 (ip.drop ihl) 2 ≠ dnsPort)
    (ipLength : Nat) :
    (handleUdp callbacks world ip ipLength ihl).dns.answers = world.dns.answers := by
  simp only [handleUdp]
  split
  · rfl
  split
  · rfl
  split
  · rfl
  split
  · rfl
  next handler found =>
  cases handler with
  | other id => exact (through.udp id _ _ _ world).answers
  | dnsResponse =>
      simp only [Stack.udpHandler, Option.bind_eq_some_iff] at found
      obtain ⟨slot, hit, handled⟩ := found
      have port := List.find?_some hit
      simp only [Bool.and_eq_true, decide_eq_true_eq] at port
      exact absurd (port.1.symm.trans (bound slot handled)) elsewhere

end Effects

/-- One step of the network code: a call of other code, a received frame or a poll. -/
inductive NetStep (callbacks : Callbacks κ σ) (world : World κ σ) : World κ σ → Prop
  | call {after : World κ σ} : ResolverCalls world after → NetStep callbacks world after
  | frame (frame : List UInt8) : NetStep callbacks world (netHandleTcpip callbacks world frame)
  | dnsPoll : NetStep callbacks world (netDnsPoll callbacks world)
  | tcpPoll : NetStep callbacks world (netTcpPoll callbacks world)

theorem NetStep.resolverPort {callbacks : Callbacks κ σ} (through : callbacks.ThroughResolver)
    {world after : World κ σ} (step : NetStep callbacks world after)
    (bound : world.stack.ResolverPort) : after.stack.ResolverPort := by
  cases step with
  | call calls => exact calls.resolverPort bound
  | frame frame => exact netHandleTcpip_resolverPort through bound frame
  | dnsPoll => exact netDnsPoll_resolverPort through bound
  | tcpPoll => exact (netTcpPoll_resolverCalls through world).resolverPort bound

theorem resolverPort_of_run {callbacks : Callbacks κ σ} (through : callbacks.ThroughResolver)
    {start finish : World κ σ} (run : ReflTransGen (NetStep callbacks) start finish)
    (bound : start.stack.ResolverPort) : finish.stack.ResolverPort := by
  induction run with
  | refl => exact bound
  | tail _ step ih => exact step.resolverPort through ih

/-! ## Frames -/

/-- The ports of a datagram, behind both headers. -/
theorem readBe16_sourcePort (stack : Stack) (dest : Mac) (destination : Ipv4)
    (sourcePort destinationPort : BitVec 16) (payload : List UInt8) :
    readBe16 (ipv4Frame stack dest 17 destination
      (udpSegment stack.localIp destination sourcePort destinationPort payload)) 34 =
      sourcePort := by
  simp only [ipv4Frame, udpSegment, List.append_assoc]
  rw [← List.append_assoc]
  exact readBe16_be16 (_ ++ _) sourcePort _

/-- Resolving an address sends at most a request, and none if the address is known. -/
theorem netStackResolveIpv4_sent {stack after : Stack} {ip : Ipv4} {mac : Option Mac}
    (resolved : netStackResolveIpv4 stack ip = (mac, after)) :
    after.nic.sent = stack.nic.sent ∨
      mac = none ∧ ∃ frame, readBe16 frame 12 = 0x0806 ∧
        after.nic.sent = stack.nic.sent ++ [frame] := by
  simp only [netStackResolveIpv4] at resolved
  split at resolved
  · cases resolved
    exact .inl (ensureReady_sent stack)
  split at resolved
  · cases resolved
    exact .inl (ensureReady_sent stack)
  split at resolved
  · cases resolved
    exact .inl (ensureReady_sent stack)
  · cases resolved
    rcases transmit_sent stack.ensureReady
      (ethernetHeader 0xFFFFFFFFFFFF stack.ensureReady.nic.macAddr 0x0806 ++
        arpPacket 1 stack.ensureReady.nic.macAddr stack.ensureReady.localIp 0 ip)
      with none | request
    · exact .inl (none.trans (ensureReady_sent stack))
    · exact .inr ⟨rfl, _, readBe16_ethernetHeader _ _ _ _,
        request.trans (by rw [ensureReady_sent])⟩

theorem netUdpSend_sourcePort {stack : Stack} {destination : Ipv4}
    {destinationPort sourcePort : BitVec 16} {payload frame : List UInt8}
    (sent : (netUdpSend stack destination destinationPort sourcePort payload).2.nic.sent =
      stack.nic.sent ++ [frame])
    (datagram : readBe16 frame 12 = 0x0800) : readBe16 frame 34 = sourcePort := by
  have silent {frames : List (List UInt8)} (same : frames = stack.nic.sent)
      (more : frames = stack.nic.sent ++ [frame]) : readBe16 frame 34 = sourcePort := by
    simp [same] at more
  simp only [netUdpSend] at sent
  split at sent
  · exact silent (ensureReady_sent stack) sent
  split at sent
  · exact silent (ensureReady_sent stack) sent
  split at sent
  · exact silent (ensureReady_sent stack) sent
  split at sent
  · next after resolved =>
      rcases netStackResolveIpv4_sent resolved with none | ⟨-, request, type, added⟩
      · exact silent (none.trans (ensureReady_sent stack)) sent
      · rw [added, ensureReady_sent, List.append_cancel_left_eq, List.singleton_inj] at sent
        rw [← sent, type] at datagram
        exact absurd datagram (by decide)
  next mac after resolved =>
  rcases netStackResolveIpv4_sent resolved with none | ⟨unknown, -⟩
  · rcases transmit_sent after (ipv4Frame after mac 17 destination
      (udpSegment after.localIp destination sourcePort destinationPort payload))
      with dropped | added
    · exact silent (dropped.trans (none.trans (ensureReady_sent stack))) sent
    · rw [added, none, ensureReady_sent, List.append_cancel_left_eq,
        List.singleton_inj] at sent
      rw [← sent]
      exact readBe16_sourcePort _ _ _ _ _ _
  · cases unknown

/-- A poll sends the query in a frame of its own. -/
structure Transmits (callbacks : Callbacks κ σ) (world : World κ σ) (frame : List UInt8) :
    Prop where
  active : world.dns.active = true
  due : dnsPollInterval ≤ world.dns.pollTicks + 1
  attempts : world.dns.attempts < dnsMaxAttempts
  sent : (netDnsPoll callbacks world).stack.nic.sent = world.stack.nic.sent ++ [frame]
  datagram : readBe16 frame 12 = 0x0800

/-- An answer that is built the standard way from the frame of a query: addresses and
ports are swapped, the identifier and the question are kept, and an address record
comes first. -/
structure StandardReply (query reply : List UInt8) (address : Ipv4) : Prop where
  type : readBe16 reply 12 = 0x0800
  version : byteAt reply 14 = 0x45
  length : (readBe16 reply 16).toNat = reply.length - 14
  whole : readBe16 reply 20 &&& 0x3FFF = 0
  headerSum : checksum ((reply.drop 14).take 20) = 0
  protocol : byteAt reply 23 = 17
  source : readBe32 reply 26 = readBe32 query 30
  destination : readBe32 reply 30 = readBe32 query 26
  sourcePort : readBe16 reply 34 = readBe16 query 36
  destinationPort : readBe16 reply 36 = readBe16 query 34
  udpLength : (readBe16 reply 38).toNat = reply.length - 34
  udpSum : transportChecksumValid 17 (readBe32 reply 26) (readBe32 reply 30)
    (reply.drop 34) = true
  id : readBe16 reply 42 = readBe16 query 42
  response : (readBe16 reply 44).getLsbD 15 = true
  untruncated : (readBe16 reply 44).getLsbD 9 = false
  success : readBe16 reply 44 &&& 0x000F = 0
  oneQuestion : readBe16 reply 46 = 1
  answers : readBe16 reply 48 ≠ 0
  record : ∃ timeToLive rest, reply.drop 54 = query.drop 54 ++ be16 0xC00C ++ be16 1 ++
    be16 1 ++ be32 timeToLive ++ be16 4 ++ be32 address ++ rest
  address : address ≠ 0

/-- The run of a lookup up to the moment at which its answer arrives: the query was
accepted, a poll has sent it in `query`, and it is still active. -/
structure Lookup (callbacks : Callbacks κ σ) (start : World κ σ) (key : κ)
    (query : List UInt8) (waiting : World κ σ) : Prop where
  ports : start.stack.udpBindings = fun _ => ⟨0, none⟩
  fresh : start.dns = Dns.initial
  run : ∃ asked hostname polling,
    ReflTransGen (NetStep callbacks) start asked ∧
      (netDnsQuery asked hostname key).1 = true ∧
      ReflTransGen (NetStep callbacks) (netDnsQuery asked hostname key).2 polling ∧
      Transmits callbacks polling query ∧
      ReflTransGen (NetStep callbacks) (netDnsPoll callbacks polling) waiting ∧
      waiting.dns.pendingId = asked.dns.nextId
  active : waiting.dns.active = true

/-- The callback of the query is called with success and the address. -/
def Answered (key : κ) (address : Ipv4) (before after : World κ σ) : Prop :=
  ∃ more, after.dns.answers = before.dns.answers ++ (key, address, true) :: more

theorem Transmits.sourcePort {callbacks : Callbacks κ σ} {world : World κ σ}
    {frame : List UInt8} (transmits : Transmits callbacks world frame) :
    readBe16 frame 34 = dnsSourcePort := by
  have sent := transmits.sent
  have due := transmits.due
  have attempts := transmits.attempts
  simp only [netDnsPoll, transmits.active, Bool.not_true, Bool.false_eq_true, ↓reduceIte,
    if_neg (Nat.not_lt.mpr due), if_neg (Nat.not_le.mpr attempts)] at sent
  exact netUdpSend_sourcePort sent transmits.datagram

theorem Lookup.resolverPort {callbacks : Callbacks κ σ} (through : callbacks.ThroughResolver)
    {start waiting : World κ σ} {key : κ} {query : List UInt8}
    (lookup : Lookup callbacks start key query waiting) : waiting.stack.ResolverPort := by
  obtain ⟨asked, hostname, polling, before, -, between, -, meanwhile, -⟩ := lookup.run
  have initially : start.stack.ResolverPort := by
    intro slot
    simp [lookup.ports]
  have accepted : (netDnsQuery asked hostname key).2.stack.ResolverPort := by
    rw [(netDnsQuery_frame asked hostname key).1]
    exact resolverPort_of_run through before initially
  exact resolverPort_of_run through meanwhile
    (netDnsPoll_resolverPort through (resolverPort_of_run through between accepted))

/-- No answer that is built the standard way reaches the callback of its query. -/
theorem dns_reply_never_answers {callbacks : Callbacks κ σ}
    (through : callbacks.ThroughResolver) {start waiting : World κ σ} {key : κ}
    {query reply : List UInt8} {address : Ipv4}
    (lookup : Lookup callbacks start key query waiting)
    (standard : StandardReply query reply address) :
    ¬ Answered key address waiting (handleIpv4 callbacks waiting reply) := by
  have bound := lookup.resolverPort through
  have port : readBe16 query 34 = dnsSourcePort := by
    obtain ⟨_, _, _, _, _, _, transmits, _⟩ := lookup.run
    exact transmits.sourcePort
  have ihl : headerLength (reply.drop 14) = 20 := by
    rw [headerLength, byteAt_drop, standard.version]
    rfl
  have elsewhere : readBe16 ((reply.drop 14).drop 20) 2 ≠ dnsPort := by
    rw [List.drop_drop, readBe16_drop, standard.destinationPort, port]
    decide
  have kept : (handleIpv4 callbacks waiting reply).dns.answers = waiting.dns.answers := by
    have datagram : byteAt (reply.drop 14) 9 = 17 := by
      rw [byteAt_drop]
      exact standard.protocol
    refine handleIpv4_cases
      (motive := fun after => after.dns.answers = waiting.dns.answers) rfl ?_ ?_ ?_
    · intro icmp
      exact absurd (datagram.symm.trans icmp) (by decide)
    · intro _
      rw [ihl]
      exact handleUdp_answers through bound elsewhere _
    · intro tcp
      exact absurd (datagram.symm.trans tcp) (by decide)
  rintro ⟨more, answered⟩
  rw [kept] at answered
  simp at answered

/-- The answer of a server to the query in a frame. -/
def replyTo (query : List UInt8) (address : Ipv4) : List UInt8 :=
  let source := readBe32 query 30
  let destination := readBe32 query 26
  let message := be16 (readBe16 query 42) ++ be16 0x8180 ++ be16 1 ++ be16 1 ++ be16 0 ++
    be16 0 ++ query.drop 54 ++ be16 0xC00C ++ be16 1 ++ be16 1 ++ be32 60 ++ be16 4 ++
    be32 address
  ethernetHeader (readMac query 6) (readMac query 0) 0x0800 ++
    ipv4Header 17 source destination (8 + message.length) ++
    udpSegment source destination (readBe16 query 36) (readBe16 query 34) message

/-- The world after a lookup was started. -/
def lookupWorld : World Unit Unit :=
  (netDnsQuery (netDnsInit neighbourWorld).2 (ascii "charis.os") ()).2

/-- The frame in which the first poll sends the query. -/
def lookupQuery : List UInt8 :=
  (netDnsPoll idleCallbacks lookupWorld).stack.nic.sent.getLast?.getD []

theorem lookupWorld_lookup :
    Lookup idleCallbacks neighbourWorld () lookupQuery
      (netDnsPoll idleCallbacks lookupWorld) where
  ports := rfl
  fresh := rfl
  run := ⟨(netDnsInit neighbourWorld).2, ascii "charis.os", lookupWorld,
    .single (.call (.init .refl)), by decide +kernel, .refl,
    ⟨by decide +kernel, by decide +kernel, by decide +kernel, by decide +kernel,
      by decide +kernel⟩, .refl, by decide +kernel⟩
  active := by decide +kernel

theorem replyTo_standard : StandardReply lookupQuery (replyTo lookupQuery 0x5DB8D822)
    0x5DB8D822 := by
  refine ⟨?_, ?_, ?_, ?_, ?_, ?_, ?_, ?_, ?_, ?_, ?_, ?_, ?_, ?_, ?_, ?_, ?_, ?_,
    ⟨60, [], ?_⟩, ?_⟩
  all_goals decide +kernel

/-- A lookup whose standard answer is lost. -/
theorem dns_reply_lost :
    Lookup idleCallbacks neighbourWorld () lookupQuery
        (netDnsPoll idleCallbacks lookupWorld) ∧
      StandardReply lookupQuery (replyTo lookupQuery 0x5DB8D822) 0x5DB8D822 ∧
      ¬ Answered () 0x5DB8D822 (netDnsPoll idleCallbacks lookupWorld)
        (handleIpv4 idleCallbacks (netDnsPoll idleCallbacks lookupWorld)
          (replyTo lookupQuery 0x5DB8D822)) := by
  refine ⟨lookupWorld_lookup, replyTo_standard, ?_⟩
  rintro ⟨more, answered⟩
  have kept : (handleIpv4 idleCallbacks (netDnsPoll idleCallbacks lookupWorld)
      (replyTo lookupQuery 0x5DB8D822)).dns.answers = [] := by
    decide +kernel
  rw [kept] at answered
  simp at answered

theorem idleCallbacks_throughResolver : idleCallbacks.ThroughResolver :=
  ⟨fun _ _ _ _ _ => .refl, fun _ _ _ => .refl, fun _ _ _ => .refl, fun _ _ _ => .refl,
    fun _ _ _ _ _ => .refl⟩

/-- The general statement at that lookup. -/
theorem dns_reply_never_answers_lookup :
    ¬ Answered () 0x5DB8D822 (netDnsPoll idleCallbacks lookupWorld)
      (handleIpv4 idleCallbacks (netDnsPoll idleCallbacks lookupWorld)
        (replyTo lookupQuery 0x5DB8D822)) :=
  dns_reply_never_answers idleCallbacks_throughResolver lookupWorld_lookup replyTo_standard

end Charis.Net
