import Charis.Net.Dns
import Charis.Net.Tcp

/-!
# Received frames

The way of a frame from the device to the code it is for.
-/

namespace Charis.Net

variable {κ σ : Type}

/-- Call the handler of a UDP port. -/
def callUdpHandler (callbacks : Callbacks κ σ) (handler : UdpHandler)
    (sourcePort : BitVec 16) (sourceIp : Ipv4) (payload : List UInt8)
    (world : World κ σ) : World κ σ :=
  match handler with
  | .dnsResponse => handleDnsResponse callbacks sourcePort sourceIp payload world
  | .other id => callbacks.udp id sourcePort sourceIp payload world

/-- `handle_udp`.  A checksum of zero means that none was supplied. -/
def handleUdp (callbacks : Callbacks κ σ) (world : World κ σ) (ip : List UInt8)
    (ipLength ihl : Nat) : World κ σ :=
  if !world.stack.ipIsConfigured ∨ readBe32 ip 16 ≠ world.stack.localIp ∨
      ipLength < ihl + 8 then world
  else
    let udp := ip.drop ihl
    let udpLength := (readBe16 udp 4).toNat
    if udpLength < 8 ∨ udpLength > ipLength - ihl then world
    else if readBe16 udp 6 ≠ 0 ∧
        !transportChecksumValid 17 (readBe32 ip 12) (readBe32 ip 16) (udp.take udpLength) then
      world
    else
      match world.stack.udpHandler (readBe16 udp 2) with
      | none => world
      | some handler =>
          callUdpHandler callbacks handler (readBe16 udp 0) (readBe32 ip 12)
            ((udp.take udpLength).drop 8) world

/-- `handle_ipv4`.  Fragments are dropped. -/
def handleIpv4 (callbacks : Callbacks κ σ) (world : World κ σ) (frame : List UInt8) :
    World κ σ :=
  let ip := frame.drop 14
  let ihl := headerLength ip
  let total := (readBe16 ip 2).toNat
  if frame.length < 34 then world
  else if (byteAt ip 0).toNat / 16 ≠ 4 then world
  else if ihl < 20 ∨ ihl > frame.length - 14 then world
  else if total < ihl ∨ total > frame.length - 14 then world
  else if readBe16 ip 6 &&& 0x3FFF ≠ 0 then world
  else if checksum (ip.take ihl) ≠ 0 then world
  else if byteAt ip 9 = 1 then
    { world with stack := handleIcmp world.stack frame ip total }
  else if byteAt ip 9 = 17 then handleUdp callbacks world ip total ihl
  else if byteAt ip 9 = 6 then
    netTcpInput callbacks world (readBe32 ip 12) (readBe32 ip 16)
      ((ip.drop ihl).take (total - ihl))
  else world

/-- `net_handle_tcpip`, for the frame that the device has received. -/
def netHandleTcpip (callbacks : Callbacks κ σ) (world : World κ σ) (frame : List UInt8) :
    World κ σ :=
  let world := { world with stack := world.stack.ensureReady }
  if frame.length < 14 then world
  else if readBe16 frame 12 = 0x0806 then
    { world with stack := handleArp world.stack frame }
  else if readBe16 frame 12 = 0x0800 then handleIpv4 callbacks world frame
  else world

end Charis.Net
