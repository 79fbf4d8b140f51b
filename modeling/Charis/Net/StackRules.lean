import Charis.Lib.Transition
import Charis.Net.Stack

/-!
# Rules for the stack

What initialising, resolving and sending do to the stack: at most one frame is handed to the
device, and the address of the interface is the one that datagrams are sent from.
-/

namespace Charis.Net

open Charis.Lib

variable {stack after : Stack}

/-- The frames that a transmission adds: none or the one it is given. -/
theorem transmit_sent (stack : Stack) (frame : List UInt8) :
    (stack.transmit frame).2.nic.sent = stack.nic.sent ∨
      (stack.transmit frame).2.nic.sent = stack.nic.sent ++ [frame] := by
  simp only [Stack.transmit, netSendPacket]
  split
  · exact .inl rfl
  · exact .inr rfl

theorem transmit_ready (stack : Stack) (frame : List UInt8) :
    (stack.transmit frame).2.ready = stack.ready ∧
      (stack.transmit frame).2.nic.ipAddr = stack.nic.ipAddr := by
  refine ⟨rfl, ?_⟩
  simp only [Stack.transmit, netSendPacket]
  split <;> rfl

theorem ensureReady_sent (stack : Stack) : stack.ensureReady.nic.sent = stack.nic.sent := by
  unfold Stack.ensureReady
  split <;> rfl

theorem ensureReady_ready (stack : Stack) : stack.ensureReady.ready = true := by
  unfold Stack.ensureReady
  split
  · assumption
  · rfl

theorem ensureReady_of_ready (ready : stack.ready = true) : stack.ensureReady = stack := by
  rw [Stack.ensureReady, if_pos ready]

theorem ensureReady_idem (stack : Stack) :
    stack.ensureReady.ensureReady = stack.ensureReady :=
  ensureReady_of_ready (ensureReady_ready stack)

theorem netStackResolveIpv4_known {ip : Ipv4} {mac : Mac}
    (resolved : netStackResolveIpv4 stack ip = (some mac, after)) :
    after = stack.ensureReady := by
  simp only [netStackResolveIpv4] at resolved
  split at resolved
  · cases resolved
  split at resolved
  · cases resolved
    rfl
  split at resolved
  · cases resolved
  · cases resolved

/-- The only frame that can go to the device when nothing has to be resolved is the one that
is sent in the end. -/
theorem sent_frame {sent : Sent × Stack} {frame frame' : List UInt8}
    (transmitted : sent = stack.transmit frame')
    (more : sent.2.nic.sent = stack.nic.sent ++ [frame]) : frame = frame' := by
  subst transmitted
  rcases transmit_sent stack frame' with none | added
  · rw [none] at more
    simp at more
  · rw [added, List.append_cancel_left_eq, List.singleton_inj] at more
    exact more.symm

theorem netUdpSend_sent {destination : Ipv4} {destinationPort sourcePort : BitVec 16}
    {payload frame : List UInt8}
    (resolved : (netUdpSend stack destination destinationPort sourcePort payload).1 ≠ .resolving)
    (sent : (netUdpSend stack destination destinationPort sourcePort payload).2.nic.sent =
      stack.nic.sent ++ [frame]) :
    payload.length ≤ 1494 ∧ ∃ mac, frame = ipv4Frame stack.ensureReady mac 17 destination
      (udpSegment stack.ensureReady.localIp destination sourcePort destinationPort payload) := by
  rw [← ensureReady_sent stack] at sent
  unfold netUdpSend at resolved sent
  dsimp only at resolved sent
  split at sent
  · simp at sent
  next passed =>
  simp only [not_or, Nat.not_lt] at passed
  refine ⟨passed.2.2.1, ?_⟩
  rw [if_neg (by simpa only [not_or, Nat.not_lt] using passed)] at resolved
  split at sent
  · simp at sent
  next up =>
  rw [if_neg up] at resolved
  split at sent
  · simp at sent
  next nextHop route =>
  rw [route] at resolved
  dsimp only at resolved
  split at sent
  · next found =>
    rw [found] at resolved
    exact absurd rfl resolved
  · next mac after found =>
    have same := netStackResolveIpv4_known found
    rw [ensureReady_idem] at same
    subst same
    exact ⟨mac, sent_frame rfl sent⟩

theorem netIpv4Send_sent {destination : Ipv4} {protocol : BitVec 8} {payload frame : List UInt8}
    (resolved : (netIpv4Send stack destination protocol payload).1 ≠ .resolving)
    (sent : (netIpv4Send stack destination protocol payload).2.nic.sent =
      stack.nic.sent ++ [frame]) :
    payload.length ≤ 1502 ∧
      ∃ mac, frame = ipv4Frame stack.ensureReady mac protocol destination payload := by
  rw [← ensureReady_sent stack] at sent
  unfold netIpv4Send at resolved sent
  dsimp only at resolved sent
  split at sent
  · simp at sent
  next passed =>
  simp only [not_or, Nat.not_lt] at passed
  refine ⟨passed.1, ?_⟩
  rw [if_neg (by simpa only [not_or, Nat.not_lt] using passed)] at resolved
  split at sent
  · simp at sent
  next up =>
  rw [if_neg up] at resolved
  split at sent
  · simp at sent
  next nextHop route =>
  rw [route] at resolved
  dsimp only at resolved
  split at sent
  · exact ⟨_, sent_frame rfl sent⟩
  next remote =>
  rw [if_neg remote] at resolved
  split at sent
  · next found =>
    rw [found] at resolved
    exact absurd rfl resolved
  · next mac after found =>
    have same := netStackResolveIpv4_known found
    rw [ensureReady_idem] at same
    subst same
    exact ⟨mac, sent_frame rfl sent⟩

/-- The interface has the address that datagrams are sent from, and none before the stack is
initialised. -/
def Stack.Addressed (stack : Stack) : Prop :=
  stack.nic.ipAddr = if stack.ready then stack.localIp else 0

namespace Stack.Addressed

theorem same (addressed : stack.Addressed) (ready : after.ready = stack.ready)
    (localIp : after.localIp = stack.localIp) (ipAddr : after.nic.ipAddr = stack.nic.ipAddr) :
    after.Addressed := by
  unfold Stack.Addressed
  rw [ready, localIp, ipAddr]
  exact addressed

theorem ensureReady (addressed : stack.Addressed) : stack.ensureReady.Addressed := by
  unfold Stack.ensureReady
  split
  · exact addressed
  · rfl

theorem transmit (addressed : stack.Addressed) (frame : List UInt8) :
    (stack.transmit frame).2.Addressed :=
  addressed.same rfl rfl (transmit_ready stack frame).2

theorem learn (addressed : stack.Addressed) (ip : Ipv4) (mac : Mac) :
    (arpCacheLearn stack ip mac).Addressed := by
  unfold arpCacheLearn
  split
  · exact addressed
  split <;> exact addressed.same rfl rfl rfl

theorem resolve (addressed : stack.Addressed) (ip : Ipv4) :
    (netStackResolveIpv4 stack ip).2.Addressed := by
  unfold netStackResolveIpv4
  dsimp only
  split
  · exact addressed.ensureReady
  split
  · exact addressed.ensureReady
  split
  · exact addressed.ensureReady
  · exact addressed.ensureReady.transmit _

theorem ipv4Send (addressed : stack.Addressed) (destination : Ipv4) (protocol : BitVec 8)
    (payload : List UInt8) : (netIpv4Send stack destination protocol payload).2.Addressed := by
  unfold netIpv4Send
  dsimp only
  split
  · exact addressed.ensureReady
  split
  · exact addressed.ensureReady
  split
  · exact addressed.ensureReady
  next nextHop _ =>
  split
  · exact addressed.ensureReady.transmit _
  have asked := addressed.ensureReady.resolve nextHop
  split
  · next found =>
    rw [found] at asked
    exact asked
  · next found =>
    rw [found] at asked
    exact asked.transmit _

theorem udpSend (addressed : stack.Addressed) (destination : Ipv4)
    (destinationPort sourcePort : BitVec 16) (payload : List UInt8) :
    (netUdpSend stack destination destinationPort sourcePort payload).2.Addressed := by
  unfold netUdpSend
  dsimp only
  split
  · exact addressed.ensureReady
  split
  · exact addressed.ensureReady
  split
  · exact addressed.ensureReady
  next nextHop _ =>
  have asked := addressed.ensureReady.resolve nextHop
  split
  · next found =>
    rw [found] at asked
    exact asked
  · next found =>
    rw [found] at asked
    exact asked.transmit _

theorem bind (addressed : stack.Addressed) (port : BitVec 16) (handler : Option UdpHandler) :
    (netUdpBind stack port handler).2.Addressed := by
  unfold netUdpBind
  split
  · exact addressed
  split
  · exact addressed.same rfl rfl rfl
  split
  · exact addressed.same rfl rfl rfl
  · exact addressed

theorem unbind (addressed : stack.Addressed) (port : BitVec 16) :
    (netUdpUnbind stack port).Addressed := by
  unfold netUdpUnbind
  split
  · exact addressed
  split
  · exact addressed.same rfl rfl rfl
  · exact addressed

theorem arp (addressed : stack.Addressed) (frame : List UInt8) :
    (handleArp stack frame).Addressed := by
  unfold handleArp
  split
  · exact addressed
  dsimp only
  split
  · exact addressed
  split
  · exact addressed.learn _ _
  · exact (addressed.learn _ _).transmit _

theorem icmp (addressed : stack.Addressed) (frame ip : List UInt8) (ipLength : Nat) :
    (handleIcmp stack frame ip ipLength).Addressed := by
  unfold handleIcmp
  dsimp only
  split
  · exact addressed
  split
  · exact addressed
  split
  · exact addressed
  split
  · exact addressed
  split
  · exact addressed
  · exact addressed.transmit _

end Stack.Addressed

/-- What can happen to the stack. -/
inductive StackEvent where
  | init
  | resolve (ip : Ipv4)
  | ipv4Send (destination : Ipv4) (protocol : BitVec 8) (payload : List UInt8)
  | udpSend (destination : Ipv4) (destinationPort sourcePort : BitVec 16) (payload : List UInt8)
  | bind (port : BitVec 16) (handler : Option UdpHandler)
  | unbind (port : BitVec 16)
  | arp (frame : List UInt8)
  | icmp (frame ip : List UInt8) (ipLength : Nat)

def stackAfter (stack : Stack) : StackEvent → Stack
  | .init => netStackInit stack
  | .resolve ip => (netStackResolveIpv4 stack ip).2
  | .ipv4Send destination protocol payload => (netIpv4Send stack destination protocol payload).2
  | .udpSend destination destinationPort sourcePort payload =>
      (netUdpSend stack destination destinationPort sourcePort payload).2
  | .bind port handler => (netUdpBind stack port handler).2
  | .unbind port => netUdpUnbind stack port
  | .arp frame => handleArp stack frame
  | .icmp frame ip ipLength => handleIcmp stack frame ip ipLength

def StackStep (stack : Stack) (event : StackEvent) (after : Stack) : Prop :=
  after = stackAfter stack event

theorem run_stackAfter (stack : Stack) (events : List StackEvent) :
    Run StackStep stack events (events.foldl stackAfter stack) := by
  induction events generalizing stack with
  | nil => exact Run.start
  | cons event events ih => exact (ih (stackAfter stack event)).cons rfl

theorem step_addressed {event : StackEvent} (addressed : stack.Addressed)
    (step : StackStep stack event after) : after.Addressed := by
  subst step
  cases event with
  | init => rfl
  | resolve ip => exact addressed.resolve ip
  | ipv4Send destination protocol payload =>
      exact addressed.ipv4Send destination protocol payload
  | udpSend destination destinationPort sourcePort payload =>
      exact addressed.udpSend destination destinationPort sourcePort payload
  | bind port handler => exact addressed.bind port handler
  | unbind port => exact addressed.unbind port
  | arp frame => exact addressed.arp frame
  | icmp frame ip ipLength => exact addressed.icmp frame ip ipLength

/-- A stack whose interface has an address is initialised, with that address. -/
theorem run_addressed {boot : Stack} {events : List StackEvent} (addressed : boot.Addressed)
    (run : Run StackStep boot events stack) : stack.Addressed := by
  have keeps : ∀ stack (event : StackEvent) after, stack.Addressed → True →
      StackStep stack event after → after.Addressed := by
    intro stack event after addressed _ step
    exact step_addressed addressed step
  exact run.invariant keeps addressed fun _ _ => trivial

theorem Stack.Addressed.configured (addressed : stack.Addressed)
    (configured : stack.nic.ipAddr ≠ 0) :
    stack.ready = true ∧ stack.nic.ipAddr = stack.localIp := by
  unfold Stack.Addressed at addressed
  split at addressed
  · next ready => exact ⟨ready, addressed⟩
  · exact absurd addressed configured

end Charis.Net
