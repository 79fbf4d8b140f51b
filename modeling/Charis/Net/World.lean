import Charis.Net.Stack

/-!
# The state of the network code

The TCP client, the resolver and the stack below them, together with the code that
uses them.  Callbacks are registered under a key `κ`, which stands for the function
pointers and the context that come with them; what the user of a key does when it is
called is a parameter.
-/

namespace Charis.Net

/-- `tcp_state_t`. -/
inductive TcpStatus where
  | closed
  | synSent
  | established
  | finWait
  deriving DecidableEq

/-- The statement that emitted a segment.  The payload of a send is identified by its
offset in the stream of accepted bytes; a send that fails is refused. -/
inductive SegmentKind where
  | syn
  | handshake
  | payload (offset : Nat)
  | refused
  | acknowledge
  | fin
  deriving DecidableEq

/-- A segment that was built and given to `net_ipv4_send`. -/
structure Emission where
  kind : SegmentKind
  sequence : BitVec 32
  acknowledgement : BitVec 32
  payload : List UInt8
  result : Sent
  deriving DecidableEq

/-- Record of one connection: its initial sequence number, the payload bytes that
`net_tcp_send` has accepted, the segments that were emitted, the bytes that were given
to the data callback and the calls of the close callback. -/
structure Connection where
  initialSeq : BitVec 32
  accepted : List UInt8
  emissions : List Emission
  delivered : List UInt8
  closes : List Bool
  deriving DecidableEq

/-- The static data of `tcp.c`, with a record of the current connection and of the
connections before it.  The pending payload stands for `tx_payload` and
`tx_length`. -/
structure Tcp (κ : Type) where
  state : TcpStatus
  remoteIp : Ipv4
  remotePort : BitVec 16
  localPort : BitVec 16
  localSeq : BitVec 32
  remoteSeq : BitVec 32
  initialSeq : BitVec 32
  pollTicks : Nat
  retries : Nat
  synTransmitted : Bool
  txPending : Bool
  txTransmitted : Bool
  initialized : Bool
  txSequence : BitVec 32
  txPayload : List UInt8
  connectCallback : Option κ
  dataCallback : Option κ
  closeCallback : Option κ
  nextLocalPort : BitVec 16
  current : Connection
  past : List Connection

/-- The static data of `dns.c`.  The query packet is as long as `query_length`;
`answers` lists the calls that were made through the callback of a query. -/
structure Dns (κ : Type) where
  server : Ipv4
  queryPacket : List UInt8
  pendingHost : List UInt8
  nextId : BitVec 16
  pendingId : BitVec 16
  pollTicks : Nat
  attempts : Nat
  ready : Bool
  active : Bool
  pendingCallback : Option κ
  answers : List (κ × Ipv4 × Bool)

/-- The network code and the state `σ` of its users. -/
structure World (κ σ : Type) where
  stack : Stack
  tcp : Tcp κ
  dns : Dns κ
  user : σ

/-- What the users of the network code do in their callbacks. -/
structure Callbacks (κ σ : Type) where
  dnsAnswer : κ → (hostname : List UInt8) → Ipv4 → (success : Bool) → World κ σ → World κ σ
  tcpConnect : κ → (connected : Bool) → World κ σ → World κ σ
  tcpData : κ → List UInt8 → World κ σ → World κ σ
  tcpClose : κ → (clean : Bool) → World κ σ → World κ σ
  udp : Nat → (sourcePort : BitVec 16) → (sourceIp : Ipv4) → List UInt8 →
    World κ σ → World κ σ

/-- Run the callback of a key, if there is one. -/
def callIf {κ σ : Type} (key : Option κ) (call : κ → World κ σ → World κ σ)
    (world : World κ σ) : World κ σ :=
  match key with
  | some key => call key world
  | none => world

/-- The data of `tcp.c` before any call. -/
def Tcp.initial {κ : Type} : Tcp κ where
  state := .closed
  remoteIp := 0
  remotePort := 0
  localPort := 0
  localSeq := 0
  remoteSeq := 0
  initialSeq := 0
  pollTicks := 0
  retries := 0
  synTransmitted := false
  txPending := false
  txTransmitted := false
  initialized := false
  txSequence := 0
  txPayload := []
  connectCallback := none
  dataCallback := none
  closeCallback := none
  nextLocalPort := 49152
  current := ⟨0, [], [], [], []⟩
  past := []

/-- The data of `dns.c` before any call. -/
def Dns.initial {κ : Type} : Dns κ where
  server := 0
  queryPacket := []
  pendingHost := []
  nextId := 0x4D31
  pendingId := 0
  pollTicks := 0
  attempts := 0
  ready := false
  active := false
  pendingCallback := none
  answers := []

/-- Callbacks that do nothing. -/
def idleCallbacks : Callbacks Unit Unit where
  dnsAnswer := fun _ _ _ _ world => world
  tcpConnect := fun _ _ world => world
  tcpData := fun _ _ world => world
  tcpClose := fun _ _ world => world
  udp := fun _ _ _ _ world => world

/-- A machine with the address 10.0.2.15 and a gateway whose address it has
learned. -/
def neighbourWorld : World Unit Unit where
  stack := arpCacheLearn
    (netStackInit {
      ready := false
      localIp := 0
      localMask := 0
      defaultGateway := 0
      arpCache := fun _ => ⟨0, 0, false⟩
      arpCacheNext := 0
      udpBindings := fun _ => ⟨0, none⟩
      nic := ⟨0x525400123456, 0, true, fun _ => true, []⟩
      config := fun key =>
        if key = ascii "net_ip" then some (ascii "10.0.2.15")
        else if key = ascii "net_gateway" then some (ascii "10.0.2.2")
        else none })
    0x0A000202 0x525500000202
  tcp := .initial
  dns := .initial
  user := ()

end Charis.Net
