import Charis.Net.World

/-!
# The TCP client

One connection at a time, driven by calls of its user, by received segments and by
polling.  Every segment that is built is recorded with the connection it belongs to.
-/

namespace Charis.Net

variable {κ σ : Type}

/-- `TCP_SEGMENT_CAP`. -/
abbrev tcpSegmentCap : Nat := 1460

/-- `TCP_POLL_INTERVAL`. -/
abbrev tcpPollInterval : Nat := 4096

/-- `TCP_MAX_RETRIES`. -/
abbrev tcpMaxRetries : Nat := 5

/-- The segment that `emit_segment` builds, with a window of 4096 bytes. -/
def tcpSegment (src dst : Ipv4) (localPort remotePort : BitVec 16) (flags : BitVec 8)
    (sequence acknowledgement : BitVec 32) (payload : List UInt8) : List UInt8 :=
  let before := be16 localPort ++ be16 remotePort ++ be32 sequence ++ be32 acknowledgement ++
    [0x50, ⟨flags⟩] ++ be16 4096
  before ++ be16 (transportChecksum 6 src dst (before ++ [0, 0, 0, 0] ++ payload)) ++
    [0, 0] ++ payload

/-- Note an emission in the record of the current connection. -/
def Tcp.note (tcp : Tcp κ) (emission : Emission) : Tcp κ :=
  { tcp with
    current := { tcp.current with emissions := tcp.current.emissions ++ [emission] } }

/-- `emit_segment`.  The kind, which may depend on the result, is only recorded. -/
def emitSegment (world : World κ σ) (kind : Sent → SegmentKind) (flags : BitVec 8)
    (sequence acknowledgement : BitVec 32) (payload : List UInt8) : Sent × World κ σ :=
  let (result, stack) := netIpv4Send world.stack world.tcp.remoteIp 6
    (tcpSegment world.stack.nic.ipAddr world.tcp.remoteIp world.tcp.localPort
      world.tcp.remotePort flags sequence acknowledgement payload)
  (result, { world with
    stack
    tcp := world.tcp.note ⟨kind result, sequence, acknowledgement, payload, result⟩ })

/-- `clear_connection`. -/
def clearConnection (tcp : Tcp κ) : Tcp κ :=
  { tcp with
    state := .closed
    txPending := false
    txTransmitted := false
    synTransmitted := false
    txPayload := []
    connectCallback := none
    dataCallback := none
    closeCallback := none }

/-- `net_tcp_init`. -/
def netTcpInit (world : World κ σ) : World κ σ :=
  if world.tcp.initialized then world
  else { world with tcp := { world.tcp with state := .closed, initialized := true } }

/-- The first sequence number of a connection. -/
def initialSequence (localPort destinationPort : BitVec 16) : BitVec 32 :=
  0xC4A21503#32 ^^^ (localPort.setWidth 32 <<< 16) ^^^ (destinationPort.setWidth 32 <<< 1)

/-- `net_tcp_connect`; `key` stands for the connect callback, which must be given, and
the other two may be absent. -/
def netTcpConnect (world : World κ σ) (destinationIp : Ipv4) (destinationPort : BitVec 16)
    (key : κ) (onData onClose : Option κ) : Bool × World κ σ :=
  let world := netTcpInit world
  if destinationPort = 0 ∨ world.tcp.state ≠ .closed then (false, world)
  else if !world.stack.nic.initialized ∨ world.stack.nic.ipAddr = 0 then (false, world)
  else
    let localPort := world.tcp.nextLocalPort
    let next := localPort + 1
    let initialSeq := initialSequence localPort destinationPort
    (true, { world with
      tcp := { world.tcp with
        state := .synSent
        remoteIp := destinationIp
        remotePort := destinationPort
        localPort
        nextLocalPort := if next < 49152 then 49152 else next
        initialSeq
        localSeq := initialSeq
        remoteSeq := 0
        retries := 0
        pollTicks := tcpPollInterval - 1
        synTransmitted := false
        txPending := false
        connectCallback := some key
        dataCallback := onData
        closeCallback := onClose
        current := ⟨initialSeq, [], [], [], []⟩
        past := world.tcp.past ++ [world.tcp.current] } })

/-- `net_tcp_send`. -/
def netTcpSend (world : World κ σ) (data : List UInt8) : Sent × World κ σ :=
  if world.tcp.state ≠ .established ∨ data.length = 0 ∨ data.length > tcpSegmentCap then
    (.failed, world)
  else if world.tcp.txPending then (.resolving, world)
  else
    let offset := world.tcp.current.accepted.length
    let (result, world) := emitSegment
      { world with
        tcp := { world.tcp with
          txPayload := data
          txSequence := world.tcp.localSeq
          txPending := true
          txTransmitted := false
          retries := 0
          pollTicks := tcpPollInterval - 1 } }
      (fun result => if result = .failed then .refused else .payload offset)
      0x18 world.tcp.localSeq world.tcp.remoteSeq data
    let accepted :=
      { world.tcp.current with accepted := world.tcp.current.accepted ++ data }
    match result with
    | .done _ =>
        (.done data.length, { world with
          tcp := { world.tcp with
            txTransmitted := true
            localSeq := world.tcp.localSeq + BitVec.ofNat 32 data.length
            current := accepted } })
    | .resolving => (.resolving, { world with tcp := { world.tcp with current := accepted } })
    | .failed =>
        (.failed, { world with tcp := { world.tcp with txPending := false, txPayload := [] } })

/-- `net_tcp_close`. -/
def netTcpClose (world : World κ σ) : World κ σ :=
  if world.tcp.state = .established then
    let (result, world) :=
      emitSegment world (fun _ => .fin) 0x11 world.tcp.localSeq world.tcp.remoteSeq []
    if result.ok then
      { world with
        tcp := { world.tcp with
          localSeq := world.tcp.localSeq + 1
          state := .finWait
          retries := 0
          pollTicks := 0 } }
    else { world with tcp := clearConnection world.tcp }
  else { world with tcp := clearConnection world.tcp }

/-- A received segment, as `net_tcp_input` takes it apart. -/
structure Segment where
  sequence : BitVec 32
  acknowledgement : BitVec 32
  flags : BitVec 8
  payload : List UInt8
  deriving DecidableEq

def Segment.hasFin (segment : Segment) : Bool := segment.flags.getLsbD 0
def Segment.hasSyn (segment : Segment) : Bool := segment.flags.getLsbD 1
def Segment.hasRst (segment : Segment) : Bool := segment.flags.getLsbD 2
def Segment.hasAck (segment : Segment) : Bool := segment.flags.getLsbD 4

/-- The checks that `net_tcp_input` begins with. -/
def acceptSegment (world : World κ σ) (sourceIp destinationIp : Ipv4)
    (bytes : List UInt8) : Option Segment :=
  let headerLength := (byteAt bytes 12).toNat / 16 * 4
  if !world.tcp.initialized ∨ world.tcp.state = .closed ∨ sourceIp ≠ world.tcp.remoteIp ∨
      bytes.length < 20 ∨ destinationIp ≠ world.stack.nic.ipAddr then none
  else if headerLength < 20 ∨ headerLength > bytes.length ∨
      !transportChecksumValid 6 sourceIp destinationIp bytes then none
  else if readBe16 bytes 0 ≠ world.tcp.remotePort ∨ readBe16 bytes 2 ≠ world.tcp.localPort
  then none
  else
    some {
      sequence := readBe32 bytes 4
      acknowledgement := readBe32 bytes 8
      flags := byteAt bytes 13
      payload := bytes.drop headerLength }

/-- Note the call of the close callback, if there is one. -/
def Tcp.noteClose (tcp : Tcp κ) (clean : Bool) : Tcp κ :=
  if tcp.closeCallback.isSome then
    { tcp with current := { tcp.current with closes := tcp.current.closes ++ [clean] } }
  else tcp

/-- Clear the connection before its close callback is called. -/
def clearForClose (world : World κ σ) (clean : Bool) : World κ σ :=
  { world with tcp := clearConnection (world.tcp.noteClose clean) }

/-- The end of a connection that was reset or given up: its user is told. -/
def abortConnection (callbacks : Callbacks κ σ) (world : World κ σ) : World κ σ :=
  let tcp := world.tcp
  if tcp.state = .synSent ∧ tcp.connectCallback.isSome then
    callIf tcp.connectCallback (fun key => callbacks.tcpConnect key false)
      { world with tcp := clearConnection tcp }
  else
    callIf tcp.closeCallback (fun key => callbacks.tcpClose key false)
      (clearForClose world false)

/-- An acknowledgement without payload. -/
def emitAck (world : World κ σ) : World κ σ :=
  (emitSegment world (fun _ => .acknowledge) 0x10 world.tcp.localSeq world.tcp.remoteSeq
    []).2

/-- Count bytes of the peer as received. -/
def advanceRemote (world : World κ σ) (count : BitVec 32) : World κ σ :=
  { world with tcp := { world.tcp with remoteSeq := world.tcp.remoteSeq + count } }

/-- Count the payload that the connection is waiting for, and note it if there is a data
callback. -/
def countPayload (world : World κ σ) (payload : List UInt8) : World κ σ :=
  let world := advanceRemote world (BitVec.ofNat 32 payload.length)
  if world.tcp.dataCallback.isSome then
    { world with
      tcp := { world.tcp with
        current := { world.tcp.current with
          delivered := world.tcp.current.delivered ++ payload } } }
  else world

/-- Deliver the payload that the connection is waiting for. -/
def deliverPayload (callbacks : Callbacks κ σ) (world : World κ σ) (payload : List UInt8) :
    World κ σ :=
  let world := countPayload world payload
  emitAck (callIf world.tcp.dataCallback (fun key => callbacks.tcpData key payload) world)

/-- The segment opens the connection that is being set up. -/
def Segment.opens (segment : Segment) (tcp : Tcp κ) : Bool :=
  tcp.state = .synSent && !segment.hasRst && segment.hasSyn && segment.hasAck &&
    segment.acknowledgement = tcp.localSeq

/-- Enter the state `TCP_ESTABLISHED` and acknowledge the segment that opened the
connection. -/
def openConnection (world : World κ σ) (segment : Segment) : World κ σ :=
  let world := { world with
    tcp := { world.tcp with
      remoteSeq := segment.sequence + 1
      localSeq := world.tcp.localSeq + 1
      state := .established } }
  let world := (emitSegment world (fun _ => .handshake) 0x10 world.tcp.localSeq
    world.tcp.remoteSeq []).2
  { world with tcp := { world.tcp with connectCallback := none } }

/-- `net_tcp_input` in the state `TCP_SYN_SENT`. -/
def inputSynSent (callbacks : Callbacks κ σ) (world : World κ σ) (segment : Segment) :
    World κ σ :=
  if !segment.opens world.tcp then world
  else
    let key := world.tcp.connectCallback
    let world := callIf key (fun key => callbacks.tcpConnect key true)
      (openConnection world segment)
    if segment.payload ≠ [] ∧ segment.sequence + 1 = world.tcp.remoteSeq then
      deliverPayload callbacks world segment.payload
    else world

/-- The end of `net_tcp_input` for a segment with `FIN`, which is counted when it is
the next one. -/
def inputFin (callbacks : Callbacks κ σ) (world : World κ σ) (segment : Segment) :
    World κ σ :=
  let expected :=
    segment.sequence + BitVec.ofNat 32 segment.payload.length = world.tcp.remoteSeq
  let world := emitAck (advanceRemote world (if expected then 1 else 0))
  callIf world.tcp.closeCallback (fun key => callbacks.tcpClose key true)
    (clearForClose world true)

/-- Drop the pending payload when the peer has acknowledged it. -/
def acknowledgePayload (world : World κ σ) (segment : Segment) : World κ σ :=
  if segment.hasAck && world.tcp.txPending && world.tcp.txTransmitted &&
      segment.acknowledgement ≥ world.tcp.localSeq then
    { world with
      tcp := { world.tcp with txPending := false, txTransmitted := false, txPayload := [] } }
  else world

/-- Deliver the payload of a segment if it is the next one. -/
def receivePayload (callbacks : Callbacks κ σ) (world : World κ σ) (segment : Segment) :
    World κ σ :=
  if segment.payload ≠ [] ∧ segment.sequence = world.tcp.remoteSeq then
    deliverPayload callbacks world segment.payload
  else world

/-- `net_tcp_input` once the connection is open. -/
def inputOpen (callbacks : Callbacks κ σ) (world : World κ σ) (segment : Segment) :
    World κ σ :=
  let world := receivePayload callbacks (acknowledgePayload world segment) segment
  if segment.hasFin then inputFin callbacks world segment
  else if world.tcp.state = .finWait && segment.hasAck &&
      segment.acknowledgement ≥ world.tcp.localSeq then
    { world with tcp := clearConnection world.tcp }
  else world

/-- `net_tcp_input`. -/
def netTcpInput (callbacks : Callbacks κ σ) (world : World κ σ)
    (sourceIp destinationIp : Ipv4) (bytes : List UInt8) : World κ σ :=
  match acceptSegment world sourceIp destinationIp bytes with
  | none => world
  | some segment =>
      if segment.hasRst then abortConnection callbacks world
      else if world.tcp.state = .synSent then inputSynSent callbacks world segment
      else inputOpen callbacks world segment

/-- `net_tcp_poll` in the state `TCP_SYN_SENT`. -/
def pollSyn (world : World κ σ) : Sent × World κ σ :=
  let tcp := world.tcp
  let (result, world) := emitSegment world (fun _ => .syn) 0x02 tcp.initialSeq 0 []
  (result,
    if result.ok ∧ !tcp.synTransmitted then
      { world with
        tcp := { world.tcp with synTransmitted := true, localSeq := tcp.initialSeq + 1 } }
    else world)

/-- `net_tcp_poll` with a pending payload, which is sent for the first time or
again. -/
def pollPayload (world : World κ σ) : Sent × World κ σ :=
  let tcp := world.tcp
  let offset := tcp.current.accepted.length - tcp.txPayload.length
  let (result, world) := emitSegment world (fun _ => .payload offset) 0x18 tcp.txSequence
    tcp.remoteSeq tcp.txPayload
  (result,
    if result.ok ∧ !tcp.txTransmitted then
      { world with
        tcp := { world.tcp with
          txTransmitted := true
          localSeq := tcp.txSequence + BitVec.ofNat 32 tcp.txPayload.length } }
    else world)

/-- What `net_tcp_poll` sends or sends again. -/
def pollTransmit (world : World κ σ) : Sent × World κ σ :=
  if world.tcp.state = .synSent then pollSyn world
  else if world.tcp.txPending then pollPayload world
  else if world.tcp.state = .finWait then
    emitSegment world (fun _ => .fin) 0x11 (world.tcp.localSeq - 1) world.tcp.remoteSeq []
  else (.failed, world)

/-- `net_tcp_poll`. -/
def netTcpPoll (callbacks : Callbacks κ σ) (world : World κ σ) : World κ σ :=
  if !world.tcp.initialized ∨ world.tcp.state = .closed then world
  else if world.tcp.pollTicks + 1 < tcpPollInterval then
    { world with tcp := { world.tcp with pollTicks := world.tcp.pollTicks + 1 } }
  else if world.tcp.retries ≥ tcpMaxRetries then
    abortConnection callbacks { world with tcp := { world.tcp with pollTicks := 0 } }
  else
    let (result, world) :=
      pollTransmit { world with tcp := { world.tcp with pollTicks := 0 } }
    if result = .resolving then world
    else { world with tcp := { world.tcp with retries := world.tcp.retries + 1 } }

end Charis.Net
