import Charis.Net.EchoReplies

/-!
# Source addresses of emitted frames

All builders of frames but one take the source addresses from the interface and
the stack.  The reply to an echo request takes its Ethernet source from the
destination of the request, which a receiver that listens to broadcasts need not
own.
-/

namespace Charis.Net

open Charis.Lib

/-- The source addresses of a frame are those of the stack: of its interface on
the Ethernet, and its own address as IPv4 source or ARP sender. -/
structure OwnSource (stack : Stack) (frame : List UInt8) : Prop where
  mac : readMac frame 6 = stack.nic.macAddr
  address : (readBe16 frame 12 = 0x0800 ∧ readBe32 frame 26 = stack.localIp) ∨
    (readBe16 frame 12 = 0x0806 ∧ readBe32 frame 28 = stack.localIp)

/-- The frames that are handed to the device in a step. -/
def emitted (before after : Stack) : List (List UInt8) :=
  after.nic.sent.drop before.nic.sent.length

/-- Every frame of a step has the source addresses that the stack has then. -/
def EmitsOwn (before after : Stack) : Prop :=
  ∀ frame ∈ emitted before after, OwnSource after frame

/-- A received frame with its IPv4 packet, as `handle_ipv4` hands them on: the frame
fits the receive buffer and holds the packet. -/
def StackEvent.Received : StackEvent → Prop
  | .icmp frame ip ipLength =>
      ip = frame.drop 14 ∧ 14 + ipLength ≤ frame.length ∧ frame.length ≤ frameCap
  | _ => True

/-- An echo request that is answered has been sent to the interface itself. -/
def OwnDestination (stack : Stack) : StackEvent → Prop
  | .icmp frame ip ipLength =>
      AcceptsEcho stack ip ipLength → stack.nic.initialized = true →
        readMac frame 0 = stack.nic.macAddr
  | _ => True

section Frames

variable {stack : Stack}

/-- Reading back an Ethernet address. -/
theorem readMac_macBytes (before : List UInt8) (mac : Mac) (after : List UInt8) :
    readMac (before ++ (macBytes mac ++ after)) before.length = mac := by
  have high := readBe16_be16 before (mac.extractLsb' 32 16)
    (be32 (mac.extractLsb' 0 32) ++ after)
  have low := readBe32_be32 (before ++ be16 (mac.extractLsb' 32 16))
    (mac.extractLsb' 0 32) after
  simp only [List.append_assoc, List.length_append, length_be16] at high low
  simp only [readMac, macBytes, List.append_assoc, high, low]
  rw [@BitVec.extractLsb'_append_extractLsb'_eq_extractLsb' 48 32 0 32 16 mac rfl]
  exact BitVec.extractLsb'_eq_self

theorem readMac_ethernetHeader (dest src : Mac) (type : BitVec 16) (rest : List UInt8) :
    readMac (ethernetHeader dest src type ++ rest) 6 = src := by
  rw [ethernetHeader, List.append_assoc, List.append_assoc]
  exact readMac_macBytes (macBytes dest) src (be16 type ++ rest)

theorem ownSource_arpPacket (dest tha : Mac) (operation : BitVec 16) (tpa : Ipv4) :
    OwnSource stack (ethernetHeader dest stack.nic.macAddr 0x0806 ++
      arpPacket operation stack.nic.macAddr stack.localIp tha tpa) := by
  constructor
  · exact readMac_ethernetHeader ..
  · right
    constructor
    · exact readBe16_ethernetHeader ..
    · have found := readBe32_be32 (ethernetHeader dest stack.nic.macAddr 0x0806 ++ (be16 1 ++
        be16 0x0800 ++ [6, 4] ++ be16 operation ++ macBytes stack.nic.macAddr)) stack.localIp
        (macBytes tha ++ be32 tpa)
      rw [arpPacket]
      simp only [List.append_assoc] at found ⊢
      exact found

theorem ownSource_ipv4Frame (dest : Mac) (protocol : BitVec 8) (dst : Ipv4)
    (payload : List UInt8) : OwnSource stack (ipv4Frame stack dest protocol dst payload) := by
  rw [ipv4Frame, List.append_assoc]
  constructor
  · exact readMac_ethernetHeader ..
  · left
    constructor
    · exact readBe16_ethernetHeader ..
    · rw [ipv4Header_eq]
      generalize checksum _ = sum
      have found := readBe32_be32 (ethernetHeader dest stack.nic.macAddr 0x0800 ++
        (ipv4Front protocol payload.length ++ be16 sum)) stack.localIp (be32 dst ++ payload)
      simp only [List.append_assoc] at found ⊢
      exact found

end Frames

section Steps

variable {before middle after : Stack} {frame : List UInt8}

theorem emitsOwn_of_same (same : after.nic.sent = before.nic.sent) : EmitsOwn before after := by
  intro frame member
  rw [emitted, same, List.drop_length] at member
  cases member

theorem EmitsOwn.of_sent (emits : EmitsOwn middle after)
    (same : middle.nic.sent = before.nic.sent) : EmitsOwn before after := by
  intro frame member
  apply emits
  rw [emitted, same]
  exact member

/-- Handing a frame to the device changes neither address. -/
theorem ownSource_transmit (sent : List UInt8) :
    OwnSource (before.transmit sent).2 frame ↔ OwnSource before frame := by
  have mac : (before.transmit sent).2.nic.macAddr = before.nic.macAddr := by
    simp only [Stack.transmit, netSendPacket]
    split <;> rfl
  constructor
  · intro own
    exact ⟨own.mac.trans mac, own.address⟩
  · intro own
    exact ⟨own.mac.trans mac.symm, own.address⟩

/-- What an initialised device takes. -/
theorem emitted_transmit (up : before.nic.initialized = true)
    (fits : 0 < frame.length ∧ frame.length ≤ frameCap) :
    emitted before (before.transmit frame).2 = [frame] := by
  have accepted : ¬ ((!before.nic.initialized) = true ∨ frame.length = 0 ∨
      frame.length > frameCap) := by
    simp only [up, Bool.not_true, Bool.false_eq_true, false_or]
    omega
  rw [emitted, Stack.transmit, netSendPacket, if_neg accepted]
  exact List.drop_left' rfl

theorem emitted_transmit_down (down : before.nic.initialized = false) :
    (before.transmit frame).2.nic.sent = before.nic.sent := by
  rw [Stack.transmit, netSendPacket, if_pos (.inl (by rw [down]; rfl))]

theorem emitsOwn_transmit (own : OwnSource before frame) :
    EmitsOwn before (before.transmit frame).2 := by
  intro other member
  rw [ownSource_transmit]
  rcases transmit_sent before frame with same | added
  · rw [emitted, same, List.drop_length] at member
    cases member
  · rw [emitted, added, List.drop_left' rfl, List.mem_singleton] at member
    rw [member]
    exact own

theorem emitsOwn_resolve (ip : Ipv4) : EmitsOwn before (netStackResolveIpv4 before ip).2 := by
  have ready := ensureReady_sent before
  unfold netStackResolveIpv4
  dsimp only
  split
  · exact emitsOwn_of_same ready
  split
  · exact emitsOwn_of_same ready
  split
  · exact emitsOwn_of_same ready
  · exact (emitsOwn_transmit (ownSource_arpPacket _ _ _ _)).of_sent ready

/-- The end of both send functions: either the next hop is asked for, or it is known
and a datagram goes out. -/
theorem emitsOwn_resolved {nextHop : Ipv4} {result : Sent × Stack} (ready : before.ready = true)
    (missing : ∀ stack, netStackResolveIpv4 before nextHop = (none, stack) → result.2 = stack)
    (found : ∀ mac stack, netStackResolveIpv4 before nextHop = (some mac, stack) →
      ∃ protocol destination payload,
        result = stack.transmit (ipv4Frame stack mac protocol destination payload)) :
    EmitsOwn before result.2 := by
  have asked := @emitsOwn_resolve before nextHop
  match resolved : netStackResolveIpv4 before nextHop with
  | (none, stack) =>
      rw [resolved] at asked
      rw [missing stack resolved]
      exact asked
  | (some mac, stack) =>
      have same := netStackResolveIpv4_known resolved
      rw [ensureReady_of_ready ready] at same
      obtain ⟨protocol, destination, payload, sent⟩ := found mac stack resolved
      rw [sent, same]
      exact emitsOwn_transmit (ownSource_ipv4Frame _ _ _ _)

theorem emitsOwn_ipv4Send (destination : Ipv4) (protocol : BitVec 8) (payload : List UInt8) :
    EmitsOwn before (netIpv4Send before destination protocol payload).2 := by
  have ready := ensureReady_sent before
  unfold netIpv4Send
  dsimp only
  split
  · exact emitsOwn_of_same ready
  split
  · exact emitsOwn_of_same ready
  split
  · exact emitsOwn_of_same ready
  next nextHop _ =>
  refine EmitsOwn.of_sent ?_ ready
  split
  · exact emitsOwn_transmit (ownSource_ipv4Frame _ _ _ _)
  · apply emitsOwn_resolved (ensureReady_ready before)
    · intro stack missed
      rw [missed]
    · intro mac stack known
      rw [known]
      exact ⟨_, _, _, rfl⟩

theorem emitsOwn_udpSend (destination : Ipv4) (destinationPort sourcePort : BitVec 16)
    (payload : List UInt8) :
    EmitsOwn before (netUdpSend before destination destinationPort sourcePort payload).2 := by
  have ready := ensureReady_sent before
  unfold netUdpSend
  dsimp only
  split
  · exact emitsOwn_of_same ready
  split
  · exact emitsOwn_of_same ready
  split
  · exact emitsOwn_of_same ready
  next nextHop _ =>
  refine EmitsOwn.of_sent ?_ ready
  apply emitsOwn_resolved (ensureReady_ready before)
  · intro stack missed
    rw [missed]
  · intro mac stack known
    rw [known]
    exact ⟨_, _, _, rfl⟩

theorem emitsOwn_bind (port : BitVec 16) (handler : Option UdpHandler) :
    EmitsOwn before (netUdpBind before port handler).2 := by
  apply emitsOwn_of_same
  unfold netUdpBind
  split
  · rfl
  split
  · rfl
  split <;> rfl

theorem emitsOwn_unbind (port : BitVec 16) : EmitsOwn before (netUdpUnbind before port) := by
  apply emitsOwn_of_same
  unfold netUdpUnbind
  split
  · rfl
  split <;> rfl

theorem arpCacheLearn_sent (ip : Ipv4) (mac : Mac) :
    (arpCacheLearn before ip mac).nic.sent = before.nic.sent := by
  unfold arpCacheLearn
  split
  · rfl
  split <;> rfl

theorem emitsOwn_arp : EmitsOwn before (handleArp before frame) := by
  unfold handleArp
  split
  · exact emitsOwn_of_same rfl
  dsimp only
  split
  · exact emitsOwn_of_same rfl
  split
  · exact emitsOwn_of_same (arpCacheLearn_sent _ _)
  · exact (emitsOwn_transmit (ownSource_arpPacket _ _ _ _)).of_sent (arpCacheLearn_sent _ _)

/-- The reply to an echo request has the own addresses exactly when the request was
sent to the own Ethernet address. -/
theorem ownSource_replyFrame {ipLength : Nat} (received : 14 + ipLength ≤ frame.length)
    (accepted : AcceptsEcho before (frame.drop 14) ipLength) :
    OwnSource before (replyFrame frame (frame.drop 14)) ↔
      readMac frame 0 = before.nic.macAddr := by
  have mac : readMac (replyFrame frame (frame.drop 14)) 6 = readMac frame 0 :=
    readMac_ethernetHeader ..
  constructor
  · intro own
    exact mac.symm.trans own.mac
  · intro destination
    constructor
    · exact mac.trans destination
    · left
      constructor
      · exact readBe16_ethernetHeader ..
      · have source := (accepted.echoReply received).source.trans accepted.here.2
        rw [← drop_replyFrame frame] at source
        simp only [readBe32, readBe16_drop] at source ⊢
        exact source

theorem emitsOwn_icmp_iff {ipLength : Nat} (received : 14 + ipLength ≤ frame.length)
    (fits : frame.length ≤ frameCap) :
    EmitsOwn before (handleIcmp before frame (frame.drop 14) ipLength) ↔
      (AcceptsEcho before (frame.drop 14) ipLength → before.nic.initialized = true →
        readMac frame 0 = before.nic.macAddr) := by
  by_cases accepted : AcceptsEcho before (frame.drop 14) ipLength
  · rw [handleIcmp_of_accepted accepted]
    cases up : before.nic.initialized with
    | false =>
        constructor
        · intro _ _ impossible
          cases impossible
        · intro _
          exact emitsOwn_of_same (emitted_transmit_down up)
    | true =>
    have reply := accepted.echoReply received
    have length : (replyFrame frame (frame.drop 14)).length =
        14 + totalLength (frame.drop 14) := by
      rw [replyFrame, List.length_append, length_ethernetHeader, reply.length]
    have below := accepted.length.2
    have taken := emitted_transmit up (show 0 < (replyFrame frame (frame.drop 14)).length ∧
      (replyFrame frame (frame.drop 14)).length ≤ frameCap by omega)
    constructor
    · intro emits _ _
      have own := emits (replyFrame frame (frame.drop 14)) (by rw [taken]; simp)
      rw [ownSource_transmit] at own
      exact (ownSource_replyFrame received accepted).mp own
    · intro destination
      exact emitsOwn_transmit
        ((ownSource_replyFrame received accepted).mpr (destination accepted rfl))
  · rw [handleIcmp_of_rejected accepted]
    constructor
    · intro _ impossible
      exact (accepted impossible).elim
    · intro _
      exact emitsOwn_of_same rfl

theorem step_emitsOwn_iff {event : StackEvent} (received : event.Received) :
    EmitsOwn before (stackAfter before event) ↔ OwnDestination before event := by
  cases event with
  | init => exact iff_of_true (emitsOwn_of_same rfl) trivial
  | resolve ip => exact iff_of_true (emitsOwn_resolve ip) trivial
  | ipv4Send destination protocol payload =>
      exact iff_of_true (emitsOwn_ipv4Send destination protocol payload) trivial
  | udpSend destination destinationPort sourcePort payload =>
      exact iff_of_true (emitsOwn_udpSend destination destinationPort sourcePort payload) trivial
  | bind port handler => exact iff_of_true (emitsOwn_bind port handler) trivial
  | unbind port => exact iff_of_true (emitsOwn_unbind port) trivial
  | arp frame => exact iff_of_true emitsOwn_arp trivial
  | icmp frame ip ipLength =>
      obtain ⟨rfl, inside, fits⟩ := received
      exact emitsOwn_icmp_iff inside fits

end Steps

/-- In a run from any state, every frame that is emitted has the own source addresses
exactly when every echo request that is answered was sent to the own Ethernet
address. -/
theorem emitted_frames_own_iff {stack : Stack} {events : List StackEvent}
    (received : Along stackAfter (fun _ event => event.Received) stack events) :
    Along stackAfter (fun before event => EmitsOwn before (stackAfter before event)) stack
        events ↔
      Along stackAfter OwnDestination stack events := by
  have keeps : ∀ (stack : Stack) (event : StackEvent), True → event.Received →
      EmitsOwn stack (stackAfter stack event) → True := fun _ _ _ _ _ => trivial
  have same : ∀ (stack : Stack) (event : StackEvent), True → event.Received →
      (EmitsOwn stack (stackAfter stack event) ↔ OwnDestination stack event) :=
    fun _ _ _ received => step_emitsOwn_iff received
  exact Along.congr keeps same trivial received

/-- The machine of the interface answers a request that was sent to it. -/
theorem emitted_frames_own_ping :
    Along stackAfter (fun before event => EmitsOwn before (stackAfter before event))
        neighbourWorld.stack [.icmp pingFrame (pingFrame.drop 14) 35] ↔
      Along stackAfter OwnDestination neighbourWorld.stack
        [.icmp pingFrame (pingFrame.drop 14) 35] :=
  emitted_frames_own_iff ⟨⟨rfl, by decide, by decide⟩, trivial⟩

/-- The same request, sent to all machines of the network. -/
def broadcastPing : List UInt8 := macBytes 0xFFFFFFFFFFFF ++ pingFrame.drop 6

theorem broadcastPing_packet : broadcastPing.drop 14 = pingFrame.drop 14 := by decide

/-- A request to the broadcast address is answered from the broadcast address. -/
theorem broadcast_ping_answered :
    EmitsOwn neighbourWorld.stack
        (stackAfter neighbourWorld.stack (.icmp pingFrame (pingFrame.drop 14) 35)) ∧
      ¬ EmitsOwn neighbourWorld.stack
        (stackAfter neighbourWorld.stack (.icmp broadcastPing (broadcastPing.drop 14) 35)) := by
  constructor
  · have own := @emitsOwn_icmp_iff neighbourWorld.stack pingFrame 35 (by decide) (by decide)
    apply own.mpr
    intro _ _
    decide +kernel
  · have own := @emitsOwn_icmp_iff neighbourWorld.stack broadcastPing 35 (by decide) (by decide)
    intro emits
    have destination := own.mp emits (broadcastPing_packet ▸ accepts_pingFrame)
      (by decide +kernel)
    exact absurd destination (by decide +kernel)

end Charis.Net
