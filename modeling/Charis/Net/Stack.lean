import Charis.Net.Wire

/-!
# Ethernet, ARP, IPv4 and ICMP

The state of the interface and of the stack above it, and the functions that build
and send frames.  The device is asked once per frame whether it confirms the
transmission; `sent` lists the frames that were handed to it.
-/

namespace Charis.Net

/-- What the code sees of the network interface and its device. -/
structure Nic where
  macAddr : Mac
  ipAddr : Ipv4
  initialized : Bool
  /-- Whether the device confirms its n-th transmission in time. -/
  confirms : Nat → Bool
  sent : List (List UInt8)

/-- `NET_MAX_PACKET_SIZE`. -/
abbrev frameCap : Nat := 1536

/-- What a send function returns: a byte count, -1 or -2. -/
inductive Sent where
  | done (bytes : Nat)
  | failed
  | resolving
  deriving DecidableEq

/-- The result is not negative. -/
def Sent.ok : Sent → Bool
  | .done _ => true
  | _ => false

/-- `net_send_packet`. -/
def netSendPacket (nic : Nic) (frame : List UInt8) : Sent × Nic :=
  if !nic.initialized ∨ frame.length = 0 ∨ frame.length > frameCap then (.failed, nic)
  else
    (if nic.confirms nic.sent.length then .done frame.length else .failed,
      { nic with sent := nic.sent ++ [frame] })

/-- `arp_cache_entry_t`. -/
structure ArpEntry where
  ip : Ipv4
  mac : Mac
  valid : Bool

/-- The handlers that can be bound to a UDP port: the resolver's and those of other
code. -/
inductive UdpHandler where
  | dnsResponse
  | other (id : Nat)
  deriving DecidableEq

/-- `udp_binding_t`; port zero marks a free slot. -/
structure UdpBinding where
  port : BitVec 16
  handler : Option UdpHandler

instance arpEntries_neZero : NeZero 16 := ⟨by decide⟩

/-- The static data of `net_stack.c`, the interface and the string entries of the
configuration. -/
structure Stack where
  ready : Bool
  localIp : Ipv4
  localMask : Ipv4
  defaultGateway : Ipv4
  arpCache : Fin 16 → ArpEntry
  arpCacheNext : Fin 16
  udpBindings : Fin 8 → UdpBinding
  nic : Nic
  config : List UInt8 → Option (List UInt8)

/-- `config_get_string`. -/
def Stack.configGetString (stack : Stack) (key default : String) : List UInt8 :=
  (stack.config (ascii key)).getD (ascii default)

/-- The loop of `valid_netmask` from bit `bits - 1` down. -/
def validNetmaskLoop (mask : Ipv4) : (bits : Nat) → (sawZero : Bool) → Bool
  | 0, _ => true
  | bits + 1, sawZero =>
      if !mask.getLsbD bits then validNetmaskLoop mask bits true
      else if sawZero then false
      else validNetmaskLoop mask bits false

/-- `valid_netmask`: no one follows a zero. -/
def validNetmask (mask : Ipv4) : Bool := validNetmaskLoop mask 32 false

/-- `net_stack_init`. -/
def netStackInit (stack : Stack) : Stack :=
  let localIp := (parseIpv4 (stack.configGetString "net_ip" "0.0.0.0")).getD 0
  let localMask :=
    match parseIpv4 (stack.configGetString "net_mask" "255.255.255.0") with
    | some mask => if validNetmask mask then mask else 0xFFFFFF00
    | none => 0xFFFFFF00
  { stack with
    ready := true
    localIp
    localMask
    defaultGateway := (parseIpv4 (stack.configGetString "net_gateway" "0.0.0.0")).getD 0
    arpCache := fun _ => ⟨0, 0, false⟩
    arpCacheNext := 0
    nic := { stack.nic with ipAddr := localIp } }

/-- The guard that most entry points begin with. -/
def Stack.ensureReady (stack : Stack) : Stack :=
  if stack.ready then stack else netStackInit stack

/-- `ip_is_configured`. -/
def Stack.ipIsConfigured (stack : Stack) : Bool := stack.localIp ≠ 0

/-- The entry of the cache for an address. -/
def Stack.findArp (stack : Stack) (ip : Ipv4) : Option (Fin 16) :=
  (List.finRange 16).find? fun slot =>
    (stack.arpCache slot).valid && (stack.arpCache slot).ip = ip

/-- `arp_cache_learn`: group addresses are not learned. -/
def arpCacheLearn (stack : Stack) (ip : Ipv4) (mac : Mac) : Stack :=
  if ip = 0 ∨ mac = 0 ∨ mac.getLsbD 40 then stack
  else
    match stack.findArp ip with
    | some slot =>
        { stack with
          arpCache :=
            Function.update stack.arpCache slot { stack.arpCache slot with mac } }
    | none =>
        { stack with
          arpCache := Function.update stack.arpCache stack.arpCacheNext ⟨ip, mac, true⟩
          arpCacheNext := stack.arpCacheNext + 1 }

def ethernetHeader (dest src : Mac) (type : BitVec 16) : List UInt8 :=
  macBytes dest ++ macBytes src ++ be16 type

/-- An ARP packet for Ethernet and IPv4. -/
def arpPacket (operation : BitVec 16) (sha : Mac) (spa : Ipv4) (tha : Mac) (tpa : Ipv4) :
    List UInt8 :=
  be16 1 ++ be16 0x0800 ++ [6, 4] ++ be16 operation ++ macBytes sha ++ be32 spa ++
    macBytes tha ++ be32 tpa

/-- Hand a frame to the device. -/
def Stack.transmit (stack : Stack) (frame : List UInt8) : Sent × Stack :=
  let (result, nic) := netSendPacket stack.nic frame
  (result, { stack with nic })

/-- `net_stack_resolve_ipv4`: a miss sends a request and returns nothing. -/
def netStackResolveIpv4 (stack : Stack) (ip : Ipv4) : Option Mac × Stack :=
  let stack := stack.ensureReady
  if !stack.ipIsConfigured ∨ ip = 0 then (none, stack)
  else
    match stack.findArp ip with
    | some slot => (some (stack.arpCache slot).mac, stack)
    | none =>
        if !stack.nic.initialized then (none, stack)
        else
          (none, (stack.transmit (ethernetHeader 0xFFFFFFFFFFFF stack.nic.macAddr 0x0806 ++
            arpPacket 1 stack.nic.macAddr stack.localIp 0 ip)).2)

/-- `route_ipv4`: the destination itself on the link, otherwise the gateway. -/
def routeIpv4 (stack : Stack) (destination : Ipv4) : Option Ipv4 :=
  if !stack.ipIsConfigured then none
  else if destination &&& stack.localMask = stack.localIp &&& stack.localMask then
    some destination
  else if stack.defaultGateway = 0 then none
  else some stack.defaultGateway

/-- An IPv4 header without options for a payload of the given length. -/
def ipv4Header (protocol : BitVec 8) (src dst : Ipv4) (length : Nat) : List UInt8 :=
  let before := [0x45, 0] ++ be16 (BitVec.ofNat 16 (20 + length)) ++ be16 0 ++ be16 0x4000 ++
    [64, ⟨protocol⟩]
  let after := be32 src ++ be32 dst
  before ++ be16 (checksum (before ++ be16 0 ++ after)) ++ after

/-- The Ethernet frame of a datagram. -/
def ipv4Frame (stack : Stack) (dest : Mac) (protocol : BitVec 8) (dst : Ipv4)
    (payload : List UInt8) : List UInt8 :=
  ethernetHeader dest stack.nic.macAddr 0x0800 ++
    ipv4Header protocol stack.localIp dst payload.length ++ payload

/-- `net_ipv4_send`. -/
def netIpv4Send (stack : Stack) (destination : Ipv4) (protocol : BitVec 8)
    (payload : List UInt8) : Sent × Stack :=
  let stack := stack.ensureReady
  if payload.length > frameCap - 34 ∨ !stack.ipIsConfigured then (.failed, stack)
  else if !stack.nic.initialized then (.failed, stack)
  else
    match routeIpv4 stack destination with
    | none => (.failed, stack)
    | some nextHop =>
        if destination = stack.localIp then
          stack.transmit (ipv4Frame stack stack.nic.macAddr protocol destination payload)
        else
          match netStackResolveIpv4 stack nextHop with
          | (none, stack) => (.resolving, stack)
          | (some mac, stack) =>
              stack.transmit (ipv4Frame stack mac protocol destination payload)

/-- A UDP segment; a checksum of zero is sent as its complement. -/
def udpSegment (src dst : Ipv4) (sourcePort destinationPort : BitVec 16)
    (payload : List UInt8) : List UInt8 :=
  let before := be16 sourcePort ++ be16 destinationPort ++
    be16 (BitVec.ofNat 16 (8 + payload.length))
  let sum := transportChecksum 17 src dst (before ++ be16 0 ++ payload)
  before ++ be16 (if sum = 0 then 0xFFFF else sum) ++ payload

/-- `net_udp_send`.  Unlike `net_ipv4_send` it resolves the own address too. -/
def netUdpSend (stack : Stack) (destination : Ipv4)
    (destinationPort sourcePort : BitVec 16) (payload : List UInt8) : Sent × Stack :=
  let stack := stack.ensureReady
  if destinationPort = 0 ∨ sourcePort = 0 ∨ payload.length > frameCap - 42 ∨
      !stack.ipIsConfigured then (.failed, stack)
  else if !stack.nic.initialized then (.failed, stack)
  else
    match routeIpv4 stack destination with
    | none => (.failed, stack)
    | some nextHop =>
        match netStackResolveIpv4 stack nextHop with
        | (none, stack) => (.resolving, stack)
        | (some mac, stack) =>
            stack.transmit (ipv4Frame stack mac 17 destination
              (udpSegment stack.localIp destination sourcePort destinationPort payload))

/-- `net_udp_bind`. -/
def netUdpBind (stack : Stack) (port : BitVec 16) (handler : Option UdpHandler) : Bool × Stack :=
  if port = 0 || handler.isNone then (false, stack)
  else
    match (List.finRange 8).find? fun slot => (stack.udpBindings slot).port = port with
    | some slot =>
        (true, { stack with
          udpBindings := Function.update stack.udpBindings slot ⟨port, handler⟩ })
    | none =>
        match (List.finRange 8).find? fun slot => (stack.udpBindings slot).port = 0 with
        | some slot =>
            (true, { stack with
              udpBindings := Function.update stack.udpBindings slot ⟨port, handler⟩ })
        | none => (false, stack)

/-- `net_udp_unbind`. -/
def netUdpUnbind (stack : Stack) (port : BitVec 16) : Stack :=
  if port = 0 then stack
  else
    match (List.finRange 8).find? fun slot => (stack.udpBindings slot).port = port with
    | some slot =>
        { stack with udpBindings := Function.update stack.udpBindings slot ⟨0, none⟩ }
    | none => stack

/-- The handler that `handle_udp` finds for a port. -/
def Stack.udpHandler (stack : Stack) (port : BitVec 16) : Option UdpHandler :=
  ((List.finRange 8).find? fun slot =>
    (stack.udpBindings slot).port = port && (stack.udpBindings slot).handler.isSome).bind
      fun slot => (stack.udpBindings slot).handler

/-- `handle_arp`. -/
def handleArp (stack : Stack) (frame : List UInt8) : Stack :=
  if frame.length < 42 ∨ !stack.ipIsConfigured then stack
  else
    let packet := frame.drop 14
    let operation := readBe16 packet 6
    if readBe16 packet 0 ≠ 1 ∨ readBe16 packet 2 ≠ 0x0800 ∨ byteAt packet 4 ≠ 6 ∨
        byteAt packet 5 ≠ 4 ∨ (operation ≠ 1 ∧ operation ≠ 2) then stack
    else
      let sha := readMac packet 8
      let spa := readBe32 packet 14
      let stack := arpCacheLearn stack spa sha
      if operation ≠ 1 ∨ readBe32 packet 24 ≠ stack.localIp ∨ !stack.nic.initialized then
        stack
      else
        (stack.transmit (ethernetHeader sha stack.nic.macAddr 0x0806 ++
          arpPacket 2 stack.nic.macAddr stack.localIp sha spa)).2

/-- The header length of an IPv4 packet. -/
def headerLength (ip : List UInt8) : Nat := (byteAt ip 0).toNat % 16 * 4

/-- `handle_icmp`: an echo request is answered with its own payload. -/
def handleIcmp (stack : Stack) (frame ip : List UInt8) (ipLength : Nat) : Stack :=
  let ihl := headerLength ip
  let total := (readBe16 ip 2).toNat
  if ipLength < 20 ∨ ihl < 20 ∨ ihl > ipLength ∨ byteAt ip 9 ≠ 1 then stack
  else if total < ihl + 8 ∨ total > ipLength then stack
  else if !stack.ipIsConfigured ∨ readBe32 ip 16 ≠ stack.localIp then stack
  else if checksum (ip.take ihl) ≠ 0 then stack
  else
    let icmp := (ip.drop ihl).take (total - ihl)
    if byteAt icmp 0 ≠ 8 ∨ byteAt icmp 1 ≠ 0 ∨ checksum icmp ≠ 0 then stack
    else
      let ttl : BitVec 8 := if byteAt ip 8 > 1 then byteAt ip 8 - 1 else 1
      let header := splice (splice (splice (splice (ip.take ihl) 12 (be32 (readBe32 ip 16)))
        16 (be32 (readBe32 ip 12))) 8 [⟨ttl⟩]) 10 [0, 0]
      let reply := splice (splice icmp 0 [0]) 2 [0, 0]
      (stack.transmit (macBytes (readMac frame 6) ++ macBytes (readMac frame 0) ++
        be16 0x0800 ++ splice header 10 (be16 (checksum header)) ++
        splice reply 2 (be16 (checksum reply)))).2

end Charis.Net
