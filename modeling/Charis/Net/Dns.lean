import Charis.Net.World

/-!
# The resolver

One lookup at a time.  A query is encoded once and sent again until an answer comes
or the attempts are used up.
-/

namespace Charis.Net

variable {κ σ : Type}

/-- `DNS_PORT`. -/
abbrev dnsPort : BitVec 16 := 53

/-- `DNS_SOURCE_PORT`. -/
abbrev dnsSourcePort : BitVec 16 := 53000

/-- `DNS_POLL_INTERVAL`. -/
abbrev dnsPollInterval : Nat := 4096

/-- `DNS_MAX_ATTEMPTS`. -/
abbrev dnsMaxAttempts : Nat := 5

/-- Characters that a label may have. -/
def isHostChar (byte : UInt8) : Bool :=
  (0x61 ≤ byte && byte ≤ 0x7A) || (0x41 ≤ byte && byte ≤ 0x5A) || isDigit byte || byte = 0x2D

def encodeLabel (label : List UInt8) : Option (List UInt8) :=
  if label.length = 0 ∨ label.length > 63 ∨ !label.all isHostChar then none
  else some (UInt8.ofNat label.length :: label)

/-- The labels of a name; `label` is the part of the current one that was read. -/
def encodeLabels (label : List UInt8) : List UInt8 → Option (List UInt8)
  | [] => encodeLabel label
  | byte :: rest =>
      if byte = 0x2E then
        match encodeLabel label with
        | none => none
        | some head => (encodeLabels [] rest).map (head ++ ·)
      else encodeLabels (label ++ [byte]) rest

/-- `encode_hostname`. -/
def encodeHostname (host : List UInt8) : Option (List UInt8) :=
  if host.length = 0 ∨ host.length > 253 then none
  else (encodeLabels [] host).map (· ++ [0])

/-- `skip_name`: the offset after an encoded name.  Pointers are not followed. -/
def skipName (packet : List UInt8) : (steps pos : Nat) → Option Nat
  | 0, _ => none
  | steps + 1, pos =>
      if pos ≥ packet.length then none
      else
        let label := byteAt packet pos
        if label &&& 0xC0 = 0xC0 then
          if pos + 1 ≥ packet.length then none else some (pos + 2)
        else if label &&& 0xC0 ≠ 0 then none
        else if label = 0 then some (pos + 1)
        else if label.toNat > packet.length - (pos + 1) then none
        else skipName packet steps (pos + 1 + label.toNat)

/-- The question loop of `handle_dns_response`: the offset after the questions. -/
def skipQuestions (packet : List UInt8) : (count offset : Nat) → Option Nat
  | 0, offset => some offset
  | count + 1, offset =>
      match skipName packet 128 offset with
      | none => none
      | some offset =>
          if offset + 4 > packet.length then none
          else skipQuestions packet count (offset + 4)

/-- The answer loop of `handle_dns_response`: the first address that is not zero. -/
def findAddress (packet : List UInt8) : (count offset : Nat) → Option Ipv4
  | 0, _ => none
  | count + 1, offset =>
      match skipName packet 128 offset with
      | none => none
      | some offset =>
          if offset + 10 > packet.length then none
          else
            let type := readBe16 packet offset
            let klass := readBe16 packet (offset + 2)
            let rdlength := (readBe16 packet (offset + 8)).toNat
            let offset := offset + 10
            if rdlength > packet.length - offset then none
            else if type = 1 ∧ klass = 1 ∧ rdlength = 4 ∧ readBe32 packet offset ≠ 0 then
              some (readBe32 packet offset)
            else findAddress packet count (offset + rdlength)

/-- What a response to the query says. -/
def parseResponse (packet : List UInt8) : Option Ipv4 :=
  let flags := readBe16 packet 2
  let questions := (readBe16 packet 4).toNat
  let answers := (readBe16 packet 6).toNat
  if !flags.getLsbD 15 ∨ flags.getLsbD 9 ∨ flags &&& 0x000F ≠ 0 ∨ questions = 0 then none
  else (skipQuestions packet questions 12).bind (findAddress packet answers)

/-- `finish_query`, with no address for a failure. -/
def finishQuery (callbacks : Callbacks κ σ) (world : World κ σ) (address : Option Ipv4) :
    World κ σ :=
  let dns := world.dns
  let world := { world with dns := { dns with active := false, pendingCallback := none } }
  callIf dns.pendingCallback (fun key world =>
    callbacks.dnsAnswer key dns.pendingHost (address.getD 0) address.isSome
      { world with
        dns := { world.dns with
          answers := world.dns.answers ++ [(key, address.getD 0, address.isSome)] } }) world

/-- `handle_dns_response`. -/
def handleDnsResponse (callbacks : Callbacks κ σ) (sourcePort : BitVec 16) (sourceIp : Ipv4)
    (payload : List UInt8) (world : World κ σ) : World κ σ :=
  if !world.dns.active ∨ sourcePort ≠ dnsPort ∨ sourceIp ≠ world.dns.server ∨
      payload.length < 12 ∨ readBe16 payload 0 ≠ world.dns.pendingId then world
  else finishQuery callbacks world (parseResponse payload)

/-- `net_dns_init`. -/
def netDnsInit (world : World κ σ) : Bool × World κ σ :=
  if world.dns.ready then (true, world)
  else
    match parseIpv4 (world.stack.configGetString "net_dns" "1.1.1.1") with
    | none => (false, world)
    | some server =>
        let world := { world with dns := { world.dns with server } }
        if server = 0 then (false, world)
        else
          match netUdpBind world.stack dnsPort (some .dnsResponse) with
          | (false, stack) => (false, { world with stack })
          | (true, stack) =>
              (true, { world with stack, dns := { world.dns with ready := true } })

/-- The packet of a standard query for an address, with recursion desired. -/
def queryPacket (id : BitVec 16) (encoded : List UInt8) : List UInt8 :=
  be16 id ++ be16 0x0100 ++ be16 1 ++ be16 0 ++ be16 0 ++ be16 0 ++ encoded ++ be16 1 ++
    be16 1

/-- `net_dns_query`. -/
def netDnsQuery (world : World κ σ) (hostname : List UInt8) (key : κ) : Bool × World κ σ :=
  if !world.dns.ready ∨ world.dns.active then (false, world)
  else
    match encodeHostname hostname with
    | none => (false, world)
    | some encoded =>
        let id := world.dns.nextId
        (true, { world with
          dns := { world.dns with
            pendingId := id
            nextId := if id + 1 = 0 then 1 else id + 1
            queryPacket := queryPacket id encoded
            pendingHost := hostname
            pendingCallback := some key
            attempts := 0
            pollTicks := dnsPollInterval - 1
            active := true } })

/-- `net_dns_poll`. -/
def netDnsPoll (callbacks : Callbacks κ σ) (world : World κ σ) : World κ σ :=
  if !world.dns.active then world
  else if world.dns.pollTicks + 1 < dnsPollInterval then
    { world with dns := { world.dns with pollTicks := world.dns.pollTicks + 1 } }
  else
    let world := { world with dns := { world.dns with pollTicks := 0 } }
    if world.dns.attempts ≥ dnsMaxAttempts then finishQuery callbacks world none
    else
      { world with
        stack := (netUdpSend world.stack world.dns.server dnsPort dnsSourcePort
          world.dns.queryPacket).2
        dns := { world.dns with attempts := world.dns.attempts + 1 } }

end Charis.Net
