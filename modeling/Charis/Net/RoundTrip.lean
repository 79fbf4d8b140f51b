import Charis.Net.Encoding
import Charis.Net.Input
import Charis.Net.StackRules

/-!
# From one machine to another

A frame that one instance of the stack hands to its device is taken apart by another one:
the padding is dropped, the checks of all layers pass, and the payload comes out as it went
in.
-/

namespace Charis.Net

open Charis.Lib

variable {κ σ : Type}

/-- What the device adds to a short frame. -/
def padFrame (frame : List UInt8) : List UInt8 :=
  frame ++ List.replicate (60 - frame.length) 0

/-- The checksum that was computed with a zero in its place makes the sum right. -/
theorem checksum_completed {before after : List UInt8} (even : before.length % 2 = 0)
    (fits : before.length + after.length ≤ 65533) :
    checksum (before ++ (be16 (checksum (before ++ (be16 0 ++ after))) ++ after)) = 0 := by
  have beforeLe := sumWords_le before
  have afterLe := sumWords_le after
  have total : ∀ value, checksum (before ++ (be16 value ++ after)) =
      ~~~ onesSum (sumWords before + sumWords after + value.toNat) := by
    intro value
    rw [checksum, sumWords_append even, sumWords_append (by simp), sumWords_be16,
      show sumWords before + (value.toNat + sumWords after) =
        sumWords before + sumWords after + value.toNat by omega]
  rw [total, total, show (0 : BitVec 16).toNat = 0 from rfl, Nat.add_zero]
  exact onesSum_completed (by omega)

/-- The fields of an IPv4 header before its checksum. -/
def ipv4Front (protocol : BitVec 8) (length : Nat) : List UInt8 :=
  [0x45, 0] ++ be16 (BitVec.ofNat 16 (20 + length)) ++ be16 0 ++ be16 0x4000 ++ [64, ⟨protocol⟩]

theorem ipv4Header_eq (protocol : BitVec 8) (src dst : Ipv4) (length : Nat) :
    ipv4Header protocol src dst length =
      ipv4Front protocol length ++ (be16 (checksum (ipv4Front protocol length ++
        (be16 0 ++ (be32 src ++ be32 dst)))) ++ (be32 src ++ be32 dst)) := by
  simp only [ipv4Header, ipv4Front, List.append_assoc]

theorem ipv4Header_checksum (protocol : BitVec 8) (src dst : Ipv4) (length : Nat) :
    checksum (ipv4Header protocol src dst length) = 0 := by
  rw [ipv4Header_eq]
  apply checksum_completed
  · simp [ipv4Front]
  · simp [ipv4Front]

/-- What is read from a packet that begins with a header. -/
structure Carries (ip : List UInt8) (protocol : BitVec 8) (src dst : Ipv4)
    (payload rest : List UInt8) : Prop where
  version : byteAt ip 0 = 0x45
  total : (readBe16 ip 2).toNat = 20 + payload.length
  fragment : readBe16 ip 6 = 0x4000
  protocol : byteAt ip 9 = protocol
  source : readBe32 ip 12 = src
  destination : readBe32 ip 16 = dst
  checksum : checksum (ip.take 20) = 0
  payload : ip.drop 20 = payload ++ rest

theorem ipv4Header_carries (protocol : BitVec 8) (src dst : Ipv4) {payload : List UInt8}
    (fits : payload.length ≤ 1502) (rest : List UInt8) :
    Carries (ipv4Header protocol src dst payload.length ++ (payload ++ rest)) protocol src dst
      payload rest := by
  have length := length_ipv4Header protocol src dst payload.length
  constructor
  · rfl
  · rw [ipv4Header_eq, ipv4Front]
    simp only [List.append_assoc]
    rw [show (2 : Nat) = ([0x45, 0] : List UInt8).length from rfl, readBe16_be16,
      BitVec.toNat_ofNat, Nat.mod_eq_of_lt (by omega)]
  · rw [ipv4Header_eq, ipv4Front, List.append_assoc _ [64, _], List.append_assoc _ (be16 0x4000),
      List.append_assoc, List.append_assoc (be16 0x4000)]
    exact readBe16_be16 ([0x45, 0] ++ be16 _ ++ be16 0) 0x4000 _
  · rfl
  · rw [ipv4Header_eq, ← List.append_assoc (ipv4Front _ _), List.append_assoc, List.append_assoc]
    exact readBe32_be32 (ipv4Front protocol payload.length ++ be16 _) src _
  · rw [ipv4Header_eq, ← List.append_assoc (ipv4Front _ _), ← List.append_assoc, List.append_assoc]
    exact readBe32_be32 (ipv4Front protocol payload.length ++ be16 _ ++ be32 src) dst _
  · rw [List.take_left' length]
    exact ipv4Header_checksum protocol src dst payload.length
  · exact List.drop_left' length

theorem handleIpv4_carries {callbacks : Callbacks κ σ} {world : World κ σ} {dest src : Mac}
    {type : BitVec 16} {ip : List UInt8} {protocol : BitVec 8} {source destination : Ipv4}
    {payload rest : List UInt8} (carries : Carries ip protocol source destination payload rest)
    (length : 20 + payload.length ≤ ip.length) :
    handleIpv4 callbacks world (ethernetHeader dest src type ++ ip) =
      if protocol = 1 then
        { world with
          stack := handleIcmp world.stack (ethernetHeader dest src type ++ ip) ip
            (20 + payload.length) }
      else if protocol = 17 then handleUdp callbacks world ip (20 + payload.length) 20
      else if protocol = 6 then netTcpInput callbacks world source destination payload
      else world := by
  have header : headerLength ip = 20 := by
    rw [headerLength, carries.version]
    rfl
  have ethernet : (ethernetHeader dest src type ++ ip).length = 14 + ip.length := by
    rw [List.length_append, length_ethernetHeader]
  have packet : (ethernetHeader dest src type ++ ip).drop 14 = ip := List.drop_left' rfl
  have inside : (ip.drop 20).take (20 + payload.length - 20) = payload := by
    rw [carries.payload, Nat.add_sub_cancel_left, List.take_left]
  unfold handleIpv4
  simp only [packet, header, ethernet, carries.total, carries.version, carries.fragment,
    carries.checksum, carries.protocol, carries.source, carries.destination, inside]
  rw [if_neg (by omega), if_neg (by decide), if_neg (by omega), if_neg (by omega),
    if_neg (by decide), if_neg (by simp)]

/-- The fields of a UDP segment before its checksum. -/
def udpFront (sourcePort destinationPort : BitVec 16) (length : Nat) : List UInt8 :=
  be16 sourcePort ++ be16 destinationPort ++ be16 (BitVec.ofNat 16 (8 + length))

theorem udpSegment_checksum (src dst : Ipv4) (sourcePort destinationPort : BitVec 16)
    {payload : List UInt8} (fits : payload.length ≤ 1494) :
    ∃ field, field ≠ 0 ∧
      udpSegment src dst sourcePort destinationPort payload =
        udpFront sourcePort destinationPort payload.length ++ (be16 field ++ payload) ∧
      transportChecksumValid 17 src dst
        (udpFront sourcePort destinationPort payload.length ++ (be16 field ++ payload)) =
        true := by
  generalize known : udpFront sourcePort destinationPort payload.length = before
  have front : before.length = 6 := by
    rw [← known]
    rfl
  have built : udpSegment src dst sourcePort destinationPort payload = before ++
      (be16 (if transportChecksum 17 src dst (before ++ (be16 0 ++ payload)) = 0 then 0xFFFF
        else transportChecksum 17 src dst (before ++ (be16 0 ++ payload))) ++ payload) := by
    simp only [← known, udpSegment, udpFront, List.append_assoc]
  refine ⟨_, ?_, built, ?_⟩
  · split
    · decide
    · next nonzero => exact nonzero
  · apply transportChecksumValid_completed (by simp) (by omega) (by omega)
    split
    · next zero => exact .inr ⟨zero, rfl⟩
    · exact .inl rfl

theorem handleUdp_udpSegment {callbacks : Callbacks κ σ} {world : World κ σ} {ip : List UInt8}
    {source : Ipv4} {sourcePort destinationPort : BitVec 16} {payload rest : List UInt8}
    {handler : UdpHandler} (fits : payload.length ≤ 1494) (configured : world.stack.localIp ≠ 0)
    (carries : Carries ip 17 source world.stack.localIp
      (udpSegment source world.stack.localIp sourcePort destinationPort payload) rest)
    (bound : world.stack.udpHandler destinationPort = some handler) :
    handleUdp callbacks world ip (20 + (8 + payload.length)) 20 =
      callUdpHandler callbacks handler sourcePort source payload world := by
  obtain ⟨field, nonzero, built, valid⟩ := udpSegment_checksum source world.stack.localIp
    sourcePort destinationPort fits
  have udp := carries.payload
  rw [built] at udp
  have fromPort : readBe16 (ip.drop 20) 0 = sourcePort := by
    rw [udp, udpFront]
    simp only [List.append_assoc]
    exact readBe16_be16 [] _ _
  have toPort : readBe16 (ip.drop 20) 2 = destinationPort := by
    rw [udp, udpFront]
    simp only [List.append_assoc]
    exact readBe16_be16 (be16 _) _ _
  have length : (readBe16 (ip.drop 20) 4).toNat = 8 + payload.length := by
    rw [udp, udpFront, List.append_assoc, List.append_assoc]
    rw [show readBe16 _ 4 = _ from readBe16_be16 (be16 _ ++ be16 _) _ _, BitVec.toNat_ofNat,
      Nat.mod_eq_of_lt (by omega)]
  have sum : readBe16 (ip.drop 20) 6 = field := by
    rw [udp, List.append_assoc, List.append_assoc]
    exact readBe16_be16 (udpFront _ _ _) _ _
  have segment : (ip.drop 20).take (8 + payload.length) =
      udpFront sourcePort destinationPort payload.length ++ (be16 field ++ payload) := by
    rw [udp]
    apply List.take_left'
    simp [udpFront]
    omega
  have inside : (udpFront sourcePort destinationPort payload.length ++
      (be16 field ++ payload)).drop 8 = payload := rfl
  have here : ¬ ((!world.stack.ipIsConfigured) = true ∨
      readBe32 ip 16 ≠ world.stack.localIp ∨ 20 + (8 + payload.length) < 20 + 8) := by
    rw [carries.destination]
    simp only [Stack.ipIsConfigured, configured, ne_eq, not_true_eq_false]
    simp
    omega
  unfold handleUdp
  rw [if_neg here]
  simp only [carries.destination, carries.source, length, fromPort, toPort, sum, segment, inside,
    valid, bound]
  simp

/-- A datagram that one machine sends is given to the handler that another one has bound to
the port, unless that machine has no address. -/
theorem udp_end_to_end {callbacks : Callbacks κ σ} {stack : Stack}
    {destinationPort sourcePort : BitVec 16} {payload frame : List UInt8}
    {peer : World κ σ} {handler : UdpHandler}
    (resolved : (netUdpSend stack peer.stack.localIp destinationPort sourcePort payload).1 ≠
      .resolving)
    (sent : (netUdpSend stack peer.stack.localIp destinationPort sourcePort payload).2.nic.sent =
      stack.nic.sent ++ [frame])
    (configured : peer.stack.localIp ≠ 0)
    (bound : peer.stack.udpHandler destinationPort = some handler) :
    handleIpv4 callbacks peer (padFrame frame) =
      callUdpHandler callbacks handler sourcePort stack.ensureReady.localIp payload peer := by
  obtain ⟨fits, mac, rfl⟩ := netUdpSend_sent resolved sent
  have size : (udpSegment stack.ensureReady.localIp peer.stack.localIp sourcePort destinationPort
      payload).length = 8 + payload.length := by
    simp [udpSegment]
    omega
  rw [padFrame, ipv4Frame, List.append_assoc, List.append_assoc]
  generalize List.replicate _ (0 : UInt8) = padding
  have carries := @ipv4Header_carries 17 stack.ensureReady.localIp peer.stack.localIp
    (udpSegment stack.ensureReady.localIp peer.stack.localIp sourcePort destinationPort payload)
    (by omega) padding
  rw [handleIpv4_carries carries (by simp), if_neg (by decide), if_pos rfl]
  generalize ipv4Header 17 _ _ _ ++ _ = ip at carries ⊢
  rw [size]
  exact handleUdp_udpSegment fits configured carries bound

/-- Callbacks that keep the datagrams they are given. -/
def recordCallbacks : Callbacks Unit (List (List UInt8)) where
  dnsAnswer := fun _ _ _ _ world => world
  tcpConnect := fun _ _ world => world
  tcpData := fun _ _ world => world
  tcpClose := fun _ _ world => world
  udp := fun _ _ _ payload world => { world with user := world.user ++ [payload] }

/-- A machine with an address that listens on port 7. -/
def listeningWorld (localIp : Ipv4) : World Unit (List (List UInt8)) where
  stack :=
    { neighbourWorld.stack with
      localIp
      udpBindings := fun slot => if slot = 0 then ⟨7, some (.other 0)⟩ else ⟨0, none⟩ }
  tcp := .initial
  dns := .initial
  user := []

/-- The frame of a datagram from 10.0.2.15 to 10.0.2.2. -/
def datagramFrame : List UInt8 :=
  [82, 85, 0, 0, 2, 2, 82, 84, 0, 18, 52, 86, 8, 0,
    69, 0, 0, 31, 0, 0, 64, 0, 64, 17, 34, 190, 10, 0, 2, 15, 10, 0, 2, 2,
    0, 9, 0, 7, 0, 11, 227, 181, 1, 2, 3]

theorem udp_end_to_end_neighbour :
    (netUdpSend neighbourWorld.stack (listeningWorld 0x0A000202).stack.localIp 7 9
        [1, 2, 3]).2.nic.sent = neighbourWorld.stack.nic.sent ++ [datagramFrame] ∧
      handleIpv4 recordCallbacks (listeningWorld 0x0A000202) (padFrame datagramFrame) =
        callUdpHandler recordCallbacks (.other 0) 9 neighbourWorld.stack.ensureReady.localIp
          [1, 2, 3] (listeningWorld 0x0A000202) := by
  have resolved : (netUdpSend neighbourWorld.stack (listeningWorld 0x0A000202).stack.localIp 7 9
      [1, 2, 3]).1 ≠ .resolving := by
    decide +kernel
  have sent : (netUdpSend neighbourWorld.stack (listeningWorld 0x0A000202).stack.localIp 7 9
      [1, 2, 3]).2.nic.sent = neighbourWorld.stack.nic.sent ++ [datagramFrame] := by
    decide +kernel
  exact ⟨sent, udp_end_to_end resolved sent (by decide +kernel) (by decide +kernel)⟩

/-- A datagram for the address 0.0.0.0 goes to the gateway, and a machine without an address
does not take it. -/
theorem udp_to_nobody :
    ∃ frame, (netUdpSend neighbourWorld.stack (listeningWorld 0).stack.localIp 7 9
        [1, 2, 3]).2.nic.sent = neighbourWorld.stack.nic.sent ++ [frame] ∧
      (netUdpSend neighbourWorld.stack (listeningWorld 0).stack.localIp 7 9 [1, 2, 3]).1 =
        .done 45 ∧
      (listeningWorld 0).stack.udpHandler 7 = some (.other 0) ∧
      (handleIpv4 recordCallbacks (listeningWorld 0) (padFrame frame)).user ≠
        (callUdpHandler recordCallbacks (.other 0) 9 neighbourWorld.stack.localIp [1, 2, 3]
          (listeningWorld 0)).user := by
  refine ⟨[82, 85, 0, 0, 2, 2, 82, 84, 0, 18, 52, 86, 8, 0,
    69, 0, 0, 31, 0, 0, 64, 0, 64, 17, 46, 192, 10, 0, 2, 15, 0, 0, 0, 0,
    0, 9, 0, 7, 0, 11, 239, 183, 1, 2, 3], ?_, ?_, ?_, ?_⟩
  · decide +kernel
  · decide +kernel
  · decide +kernel
  · decide +kernel

/-- The other end of a connection, with the addresses and ports the other way round. -/
structure Mirrors (world peer : World κ σ) : Prop where
  initialized : peer.tcp.initialized = true
  alive : peer.tcp.state ≠ .closed
  remoteIp : peer.tcp.remoteIp = world.stack.localIp
  ipAddr : peer.stack.nic.ipAddr = world.tcp.remoteIp
  remotePort : peer.tcp.remotePort = world.tcp.localPort
  localPort : peer.tcp.localPort = world.tcp.remotePort

/-- A segment that one end of a connection emits is taken apart by the other end.  The
interface has an address whenever there is a connection, since `net_tcp_connect` checks it. -/
theorem segment_end_to_end {callbacks : Callbacks κ σ} {boot : Stack} {events : List StackEvent}
    {world peer : World κ σ} {kind : Sent → SegmentKind} {flags : BitVec 8}
    {sequence acknowledgement : BitVec 32} {payload frame : List UInt8}
    (idle : boot.ready = false) (unset : boot.nic.ipAddr = 0)
    (run : Run StackStep boot events world.stack)
    (configured : world.stack.nic.ipAddr ≠ 0) (fits : payload.length ≤ tcpSegmentCap)
    (resolved : (emitSegment world kind flags sequence acknowledgement payload).1 ≠ .resolving)
    (sent : (emitSegment world kind flags sequence acknowledgement payload).2.stack.nic.sent =
      world.stack.nic.sent ++ [frame])
    (mirrors : Mirrors world peer) :
    ∃ bytes, handleIpv4 callbacks peer (padFrame frame) =
        netTcpInput callbacks peer world.stack.localIp world.tcp.remoteIp bytes ∧
      acceptSegment peer world.stack.localIp world.tcp.remoteIp bytes =
        some ⟨sequence, acknowledgement, flags, payload⟩ := by
  have initially : boot.Addressed := by
    rw [Stack.Addressed, idle, unset]
    rfl
  obtain ⟨ready, address⟩ := (run_addressed initially run).configured configured
  obtain ⟨_, mac, rfl⟩ := netIpv4Send_sent resolved sent
  rw [ensureReady_of_ready ready, address]
  refine ⟨tcpSegment world.stack.localIp world.tcp.remoteIp world.tcp.localPort
    world.tcp.remotePort flags sequence acknowledgement payload, ?_, ?_⟩
  · generalize built : tcpSegment _ _ _ _ _ _ _ _ = bytes
    have short : payload.length ≤ 1460 := fits
    have size : bytes.length ≤ 1502 := by
      rw [← built]
      simp [tcpSegment]
      omega
    rw [padFrame, ipv4Frame, List.append_assoc, List.append_assoc]
    have carries := ipv4Header_carries 6 world.stack.localIp world.tcp.remoteIp size
      (List.replicate (60 - (ethernetHeader mac world.stack.nic.macAddr 2048 ++
        ipv4Header 6 world.stack.localIp world.tcp.remoteIp bytes.length ++ bytes).length) 0)
    rw [handleIpv4_carries carries (by simp), if_neg (by decide), if_neg (by decide), if_pos rfl]
  · have accepted := @acceptSegment_tcpSegment _ _ peer sequence acknowledgement flags payload
      mirrors.initialized mirrors.alive fits
    rwa [mirrors.remoteIp, mirrors.ipAddr, mirrors.remotePort, mirrors.localPort] at accepted

/-- A machine that is to get the address 10.0.2.15. -/
def startingStack : Stack :=
  { neighbourWorld.stack with
    ready := false
    localIp := 0
    arpCache := fun _ => ⟨0, 0, false⟩
    nic := { neighbourWorld.stack.nic with ipAddr := 0 } }

/-- It is initialised and hears from 10.0.2.2. -/
def startingEvents : List StackEvent :=
  [.init, .arp (ethernetHeader 0x525400123456 0x525500000202 0x0806 ++
    arpPacket 2 0x525500000202 0x0A000202 0x525400123456 0x0A00020F)]

/-- A machine that is connected with 10.0.2.2. -/
def nearEnd (stack : Stack) : World Unit Unit where
  stack
  tcp :=
    { Tcp.initial with
      state := .established
      initialized := true
      remoteIp := 0x0A000202
      remotePort := 80
      localPort := 49152 }
  dns := .initial
  user := ()

/-- The machine that it is connected with. -/
def farEnd : World Unit Unit where
  stack :=
    { neighbourWorld.stack with
      localIp := 0x0A000202
      nic := { neighbourWorld.stack.nic with ipAddr := 0x0A000202 } }
  tcp :=
    { Tcp.initial with
      state := .established
      initialized := true
      remoteIp := 0x0A00020F
      remotePort := 49152
      localPort := 80 }
  dns := .initial
  user := ()

/-- The frame of a segment from one to the other. -/
def segmentFrame : List UInt8 :=
  [82, 85, 0, 0, 2, 2, 82, 84, 0, 18, 52, 86, 8, 0,
    69, 0, 0, 43, 0, 0, 64, 0, 64, 6, 34, 189, 10, 0, 2, 15, 10, 0, 2, 2,
    192, 0, 0, 80, 0, 0, 0, 5, 0, 0, 0, 6, 80, 16, 16, 0, 195, 99, 0, 0, 1, 2, 3]

theorem segment_end_to_end_near :
    ∃ stack, (emitSegment (nearEnd stack) (fun _ => .acknowledge) 0x10 5 6
        [1, 2, 3]).2.stack.nic.sent = stack.nic.sent ++ [segmentFrame] ∧
      ∃ bytes, handleIpv4 idleCallbacks farEnd (padFrame segmentFrame) =
          netTcpInput idleCallbacks farEnd stack.localIp 0x0A000202 bytes ∧
        acceptSegment farEnd stack.localIp 0x0A000202 bytes =
          some ⟨5, 6, 0x10, [1, 2, 3]⟩ := by
  have run := run_stackAfter startingStack startingEvents
  have configured : (startingEvents.foldl stackAfter startingStack).nic.ipAddr ≠ 0 := by
    decide +kernel
  have address : (startingEvents.foldl stackAfter startingStack).localIp = 0x0A00020F := by
    decide +kernel
  have resolved : (emitSegment (nearEnd (startingEvents.foldl stackAfter startingStack))
      (fun _ => .acknowledge) 0x10 5 6 [1, 2, 3]).1 ≠ .resolving := by
    decide +kernel
  have sent : (emitSegment (nearEnd (startingEvents.foldl stackAfter startingStack))
      (fun _ => .acknowledge) 0x10 5 6 [1, 2, 3]).2.stack.nic.sent =
        (startingEvents.foldl stackAfter startingStack).nic.sent ++ [segmentFrame] := by
    decide +kernel
  generalize startingEvents.foldl stackAfter startingStack = stack
    at run configured address resolved sent
  have mirrors : Mirrors (nearEnd stack) farEnd :=
    ⟨rfl, nofun, address.symm, rfl, rfl, rfl⟩
  exact ⟨stack, sent, segment_end_to_end rfl rfl run configured (by decide) resolved sent mirrors⟩

end Charis.Net
