import Charis.Net.HttpSessions

/-!
# The end of a stream

A connection is closed cleanly when a segment with `FIN` is accepted, in whatever order
the segments come.  If every `FIN` comes after all payload before it, all of the stream
has been delivered by then, and a response that ends with its connection is complete.
-/

namespace Charis.Net

open Charis.Lib

theorem finishRequest_session (cause : Option Nat) (success closeTcp : Bool)
    (world : World Nat Http) : SessionCalls world (finishRequest cause success closeTcp world) := by
  simp only [finishRequest]
  split
  · exact .refl
  cases closeTcp with
  | false => exact (SessionCalls.refl.other _ _ _).other _ _ _
  | true => exact ((SessionCalls.refl.other _ _ _).close).other _ _ _

theorem SessionCalls.trans {κ σ : Type} {first second third : World κ σ}
    (before : SessionCalls first second) (after : SessionCalls second third) :
    SessionCalls first third := by
  induction after with
  | refl => exact before
  | send data _ ih => exact ih.send data
  | close _ ih => exact ih.close
  | other stack dns user _ ih => exact ih.other stack dns user

theorem SessionCalls.user {κ σ : Type} (world : World κ σ) (user : σ) :
    SessionCalls world { world with user } :=
  SessionCalls.refl.other _ _ user

theorem deliverBody_session (key : Nat) (data : List UInt8) (world : World Nat Http) :
    SessionCalls world (deliverBody key data world) := by
  simp only [deliverBody]
  split
  · exact .refl
  generalize (if (bodyPart world.user data).length = 0 then world.user else _) = http
  split
  · exact (SessionCalls.user world _).trans (finishRequest_session _ _ _ _)
  · exact .user world _

theorem httpOnData_session (key : Nat) (data : List UInt8) (world : World Nat Http) :
    SessionCalls world (httpOnData key data world) := by
  simp only [httpOnData]
  split
  · exact .refl
  split
  · exact (SessionCalls.user world _).trans (deliverBody_session _ _ _)
  split
  · exact (SessionCalls.user world _).trans (finishRequest_session _ _ _ _)
  split
  · exact (SessionCalls.user world _).trans (finishRequest_session _ _ _ _)
  split
  · exact (SessionCalls.user world _).trans (deliverBody_session _ _ _)
  · exact .user world _

theorem httpOnConnect_session (key : Nat) (connected : Bool) (world : World Nat Http) :
    SessionCalls world (httpOnConnect key connected world) := by
  simp only [httpOnConnect]
  split
  · exact .refl
  split
  · exact finishRequest_session _ _ _ _
  split
  · exact finishRequest_session _ _ _ _
  next text _ =>
  have sent : SessionCalls world (netTcpSend world text).2 := SessionCalls.refl.send text
  generalize netTcpSend _ _ = outcome at sent ⊢
  obtain ⟨result, after⟩ := outcome
  cases result with
  | failed => exact sent.trans (finishRequest_session _ _ _ _)
  | done count => exact sent
  | resolving => exact sent

theorem httpCallbacks_withinSession : httpCallbacks.WithinSession where
  connect := httpOnConnect_session
  data := httpOnData_session
  close := fun key clean world => by
    simp only [httpCallbacks, httpOnClosed]
    split
    · exact .refl
    · exact finishRequest_session _ _ _ _

/-- Every accepted segment comes from the peer of its connection and is in place, and a
`FIN` does not overtake payload. -/
def HttpEvent.Arrives (peers : Nat → Peer) (world : World Nat Http) : HttpEvent → Prop
  | .tcpInput src dst bytes =>
      (TcpEvent.input src dst bytes : TcpEvent Nat Http).Arrives peers True world
  | _ => True

theorem finishRequest_false_tcp (cause : Option Nat) (success : Bool) (world : World Nat Http) :
    (finishRequest cause success false world).tcp = world.tcp := by
  simp only [finishRequest]
  split <;> rfl

section Receiving

variable {peers : Nat → Peer} {world : World Nat Http}
  (receiving : Receiving peers True world.tcp)

include receiving

theorem finishQuery_receiving (address : Option Ipv4) :
    Receiving peers True (finishQuery httpCallbacks world address).tcp := by
  simp only [finishQuery]
  cases world.dns.pendingCallback with
  | none => exact receiving
  | some key =>
  simp only [callIf, httpCallbacks, httpOnDns]
  split
  · exact receiving
  split
  · rw [finishRequest_false_tcp]
    exact receiving
  have connected (dns : Dns Nat) := @netTcpConnect_receiving _ _ peers True
    { world with dns } receiving (address.getD 0) 80 key (some key) (some key)
  generalize outcome : netTcpConnect _ _ _ _ _ _ = connecting
  have kept : Receiving peers True connecting.2.tcp := outcome ▸ connected _
  obtain ⟨ok, after⟩ := connecting
  cases ok with
  | true => exact kept
  | false =>
      simp only [finishRequest_false_tcp]
      exact kept

theorem httpAfter_receiving {event : HttpEvent} (arrives : event.Arrives peers world) :
    Receiving peers True (httpAfter world event).tcp := by
  cases event with
  | dnsInit =>
      simp only [httpAfter, netDnsInit]
      split
      · exact receiving
      split
      · exact receiving
      split
      · exact receiving
      split <;> exact receiving
  | tcpInit => exact netTcpInit_receiving receiving
  | get request =>
      simp only [httpAfter, netHttpGet]
      split
      · exact receiving
      generalize asking : ({ world with user := _ } : World Nat Http) = now
      have tcp : now.tcp = world.tcp := by rw [← asking]
      rcases Tracks.netDnsQuery_cases now request.hostname (world.user.number + 1) with
        refused | ⟨dns, asked, -⟩
      · rw [refused]
        exact tcp ▸ receiving
      · rw [asked]
        exact tcp ▸ receiving
  | cancel =>
      exact (finishRequest_session none false true world).receiving receiving
  | dnsInput sourcePort sourceIp payload =>
      simp only [httpAfter, handleDnsResponse]
      split
      · exact receiving
      · exact finishQuery_receiving receiving _
  | dnsPoll =>
      simp only [httpAfter, netDnsPoll]
      split
      · exact receiving
      split
      · exact receiving
      split
      · exact @finishQuery_receiving peers { world with dns := { world.dns with pollTicks := 0 } }
          receiving none
      · exact receiving
  | tcpInput src dst bytes =>
      exact netTcpInput_receiving httpCallbacks_withinSession receiving src dst bytes arrives
  | tcpPoll => exact netTcpPoll_receiving httpCallbacks_withinSession receiving
  | other stack => exact receiving

end Receiving

/-- If every segment is in place and no `FIN` overtakes payload, a connection is closed
cleanly only when all of the stream has been delivered.  If besides no request is accepted
while a connection is alive, the HTTP client reports success for a response without
`Content-Length` only when all of it was received. -/
theorem clean_close_is_complete (peers : Nat → Peer) :
    (∀ (κ σ : Type) (callbacks : Callbacks κ σ) (start finish : World κ σ)
      (events : List (TcpEvent κ σ)), callbacks.WithinSession → start.tcp = Tcp.initial →
      Run (Restrict (TcpStep callbacks) fun world event => event.Arrives peers True world)
        start events finish →
      finish.tcp.Records fun number connection =>
        true ∈ connection.closes → connection.delivered = (peers number).stream) ∧
    ∀ (start finish : World Nat Http) (events : List HttpEvent), Fresh start →
      Run (Restrict HttpStep fun world event =>
        event.Alone world ∧ event.Arrives peers world) start events finish →
      ∀ report ∈ finish.user.reports, report.Unmeasured →
        report.response = (peers report.connection).stream := by
  constructor
  · intro κ σ callbacks start finish events within fresh run
    have receiving : Receiving peers True finish.tcp := by
      refine @Run.invariant _ _ _ _ _ _ (fun world => Receiving peers True world.tcp)
        (fun _ => True) ?_ run (fresh ▸ .fresh) (fun _ _ => trivial)
      rintro world event world' receiving - ⟨arrives, rfl⟩
      exact tcpAfter_receiving within receiving arrives
    exact ⟨fun number connection found =>
      (receiving.records.past number connection found).2 trivial,
      receiving.records.current.2 trivial⟩
  intro start finish events fresh run report member unmeasured
  have tracks := run_tracks (fun _ _ both => both.1) fresh run
  have receiving : Receiving peers True finish.tcp := by
    refine @Run.invariant _ _ _ _ _ _ (fun world => Receiving peers True world.tcp)
      (fun _ => True) ?_ run (fresh.tcp ▸ .fresh) (fun _ _ => trivial)
    rintro world event world' receiving - ⟨both, rfl⟩
    exact httpAfter_receiving receiving both.2
  rcases Nat.lt_or_eq_of_le (tracks.bounded report member) with old | current
  · have found := List.getElem?_eq_getElem old
    obtain ⟨response, closed⟩ := tracks.agrees.past _ _ found report member rfl unmeasured
    rw [response]
    exact (receiving.records.past _ _ found).2 trivial closed
  · obtain ⟨response, closed⟩ := tracks.agrees.current report member current unmeasured
    rw [response, current]
    exact receiving.records.current.2 trivial closed

/-- A host that answers with a text of five bytes. -/
def pagePeer : Peer := ⟨1000, pageHeaders ++ ascii "hello"⟩

/-- Every accepted segment comes from the peer of its connection. -/
def HttpEvent.FromPeer (peers : Nat → Peer) (world : World Nat Http) : HttpEvent → Prop
  | .tcpInput src dst bytes =>
      (TcpEvent.input src dst bytes : TcpEvent Nat Http).FromPeer peers world
  | _ => True

theorem fromPeer_of_accepted {peers : Nat → Peer} {world : World Nat Http} {src dst : Ipv4}
    {bytes : List UInt8} {segment : Segment} {offset : Nat}
    (accepted : acceptSegment world src dst bytes = some segment)
    (sends : (peers world.tcp.past.length).Sends segment offset) :
    (HttpEvent.tcpInput src dst bytes).FromPeer peers world := by
  intro other found _
  obtain rfl := Option.some.inj (accepted.symm.trans found)
  exact ⟨offset, sends⟩

/-- The headers of the response. -/
def headersSegment : HttpEvent := pageSegment 0x18 1001 pageHeaders

/-- The end of the response without its text. -/
def endSegment : HttpEvent := pageSegment 0x11 1031 []

/-- The clients when the connection of the request is being set up. -/
def connectingWorld : World Nat Http :=
  httpAfter (httpAfter (httpAfter (httpAfter httpWorld .dnsInit) (.get (pageRequest 0x61)))
    (pageAnswer 0x61)) .tcpPoll

/-- The clients when the connection of the request is open. -/
def openedWorld : World Nat Http := requestEvents.foldl httpAfter httpWorld

/-- The clients when the headers of the response have come. -/
def headedWorld : World Nat Http := httpAfter openedWorld headersSegment

/-- The text of the response with its end. -/
def textSegment : HttpEvent := pageSegment 0x19 1026 (ascii "hello")

/-- What the clients do with the segments of the page, all evaluated at once. -/
theorem page_transfer :
    (acceptSegment connectingWorld 0x0A000202 0x0A00020F
        (tcpSegment 0x0A000202 0x0A00020F 80 49152 0x12 1000 (initialSequence 49152 80 + 1) []) =
        some ⟨1000, initialSequence 49152 80 + 1, 0x12, []⟩ ∧
      connectingWorld.tcp.state = .synSent) ∧
    (acceptSegment openedWorld 0x0A000202 0x0A00020F
        (tcpSegment 0x0A000202 0x0A00020F 80 49152 0x18 1001 (initialSequence 49152 80 + 1)
          pageHeaders) =
        some ⟨1001, initialSequence 49152 80 + 1, 0x18, pageHeaders⟩ ∧
      0 = openedWorld.tcp.current.delivered.length) ∧
    (acceptSegment headedWorld 0x0A000202 0x0A00020F
        (tcpSegment 0x0A000202 0x0A00020F 80 49152 0x11 1031 (initialSequence 49152 80 + 1) []) =
        some ⟨1031, initialSequence 49152 80 + 1, 0x11, []⟩ ∧
      (true ∈ (httpAfter headedWorld endSegment).tcp.current.closes ∧
        (httpAfter headedWorld endSegment).tcp.current.delivered ≠ pagePeer.stream) ∧
      ∃ report ∈ (httpAfter headedWorld endSegment).user.reports,
        report.Unmeasured ∧ report.response ≠ pagePeer.stream) ∧
    (acceptSegment headedWorld 0x0A000202 0x0A00020F
        (tcpSegment 0x0A000202 0x0A00020F 80 49152 0x19 1026 (initialSequence 49152 80 + 1)
          (ascii "hello")) =
        some ⟨1026, initialSequence 49152 80 + 1, 0x19, ascii "hello"⟩ ∧
      25 = headedWorld.tcp.current.delivered.length ∧
      (headedWorld.tcp.dataCallback.isSome = true ∧ 1026 = headedWorld.tcp.remoteSeq) ∧
      ∃ report ∈ (httpAfter headedWorld textSegment).user.reports, report.Unmeasured) ∧
    (httpAfter httpWorld .dnsInit).tcp.state = .closed := by
  decide +kernel

theorem pagePeer_sends_handshake :
    pagePeer.Sends ⟨1000, initialSequence 49152 80 + 1, 0x12, []⟩ 0 :=
  .syn rfl rfl List.nil_prefix fun fin => absurd fin (by decide)

theorem pagePeer_sends_headers :
    pagePeer.Sends ⟨1001, initialSequence 49152 80 + 1, 0x18, pageHeaders⟩ 0 :=
  .data 0 rfl rfl (List.prefix_append _ _) fun fin => absurd fin (by decide)

theorem pagePeer_sends_end :
    pagePeer.Sends ⟨1031, initialSequence 49152 80 + 1, 0x11, []⟩ 30 :=
  .data 30 rfl rfl List.nil_prefix fun _ => by decide

theorem handshake_fromPeer :
    (pageSegment 0x12 1000 []).FromPeer (fun _ => pagePeer) connectingWorld :=
  @fromPeer_of_accepted (fun _ => pagePeer) _ _ _ _ _ _ page_transfer.1.1
    pagePeer_sends_handshake

theorem headers_fromPeer : headersSegment.FromPeer (fun _ => pagePeer) openedWorld :=
  @fromPeer_of_accepted (fun _ => pagePeer) _ _ _ _ _ _ page_transfer.2.1.1 pagePeer_sends_headers

theorem end_fromPeer : endSegment.FromPeer (fun _ => pagePeer) headedWorld :=
  @fromPeer_of_accepted (fun _ => pagePeer) _ _ _ _ _ _ page_transfer.2.2.1.1 pagePeer_sends_end

/-- The text of a response is lost and its end is not: the connection is closed cleanly,
and the client reports success for the headers alone. -/
theorem fin_overtakes_response :
    ∃ finish, Run (Restrict HttpStep fun world event => event.FromPeer (fun _ => pagePeer) world)
        httpWorld (requestEvents ++ [headersSegment] ++ [endSegment]) finish ∧
      (true ∈ finish.tcp.current.closes ∧ finish.tcp.current.delivered ≠ pagePeer.stream) ∧
      ∃ report ∈ finish.user.reports, report.Unmeasured ∧ report.response ≠ pagePeer.stream := by
  have opened : Run (Restrict HttpStep fun world event =>
      event.FromPeer (fun _ => pagePeer) world) httpWorld requestEvents openedWorld :=
    Run.of_along ⟨trivial, trivial, trivial, trivial, handshake_fromPeer, trivial⟩
  have headed : Run (Restrict HttpStep fun world event =>
      event.FromPeer (fun _ => pagePeer) world) httpWorld (requestEvents ++ [headersSegment])
      headedWorld := opened.next ⟨headers_fromPeer, rfl⟩
  have ended : Run (Restrict HttpStep fun world event =>
      event.FromPeer (fun _ => pagePeer) world) httpWorld
      (requestEvents ++ [headersSegment] ++ [endSegment]) (httpAfter headedWorld endSegment) :=
    headed.next ⟨end_fromPeer, rfl⟩
  exact ⟨_, ended, page_transfer.2.2.1.2⟩

theorem pagePeer_sends_text :
    pagePeer.Sends ⟨1026, initialSequence 49152 80 + 1, 0x19, ascii "hello"⟩ 25 :=
  .data 25 rfl rfl (by decide) fun _ => by decide

theorem arrives_of_accepted {peers : Nat → Peer} {world : World Nat Http} {src dst : Ipv4}
    {bytes : List UInt8} {segment : Segment} {offset : Nat}
    (accepted : acceptSegment world src dst bytes = some segment)
    (sends : (peers world.tcp.past.length).Sends segment offset)
    (place : world.tcp.state ≠ .synSent → offset = world.tcp.current.delivered.length)
    (fin : segment.hasFin = true → world.tcp.dataCallback.isSome = true ∧
      segment.sequence = world.tcp.remoteSeq) :
    (HttpEvent.tcpInput src dst bytes).Arrives peers world := by
  intro other found _
  obtain rfl := Option.some.inj (accepted.symm.trans found)
  exact ⟨offset, sends, fun connected _ _ _ => place connected, fun _ finished connected _ =>
    ⟨(fin finished).1, .inl ⟨(fin finished).2, place connected⟩⟩⟩

theorem handshake_arrives :
    (pageSegment 0x12 1000 []).Arrives (fun _ => pagePeer) connectingWorld := by
  obtain ⟨accepted, connecting⟩ := page_transfer.1
  exact @arrives_of_accepted (fun _ => pagePeer) _ _ _ _ _ _ accepted pagePeer_sends_handshake
    (absurd connecting) (fun fin => absurd fin (by decide))

theorem headers_arrive : headersSegment.Arrives (fun _ => pagePeer) openedWorld := by
  obtain ⟨accepted, delivered⟩ := page_transfer.2.1
  exact @arrives_of_accepted (fun _ => pagePeer) _ _ _ _ _ _ accepted pagePeer_sends_headers
    (fun _ => delivered) (fun fin => absurd fin (by decide))

theorem text_arrives : textSegment.Arrives (fun _ => pagePeer) headedWorld := by
  obtain ⟨accepted, delivered, next, _⟩ := page_transfer.2.2.2.1
  exact @arrives_of_accepted (fun _ => pagePeer) _ _ _ _ _ _ accepted pagePeer_sends_text
    (fun _ => delivered) (fun _ => next)

/-- The general statement for a response that comes in two segments. -/
theorem clean_close_is_complete_page :
    ∃ report ∈ (httpAfter headedWorld textSegment).user.reports, report.Unmeasured ∧
      report.response = pagePeer.stream := by
  have closed := page_transfer.2.2.2.2
  have opened : Run (Restrict HttpStep fun world event =>
      event.Alone world ∧ event.Arrives (fun _ => pagePeer) world) httpWorld requestEvents
      openedWorld :=
    Run.of_along ⟨⟨trivial, trivial⟩, ⟨fun _ => closed, trivial⟩, ⟨trivial, trivial⟩,
      ⟨trivial, trivial⟩, ⟨trivial, handshake_arrives⟩, trivial⟩
  have headed : Run (Restrict HttpStep fun world event =>
      event.Alone world ∧ event.Arrives (fun _ => pagePeer) world) httpWorld
      (requestEvents ++ [headersSegment]) headedWorld :=
    opened.next ⟨⟨trivial, headers_arrive⟩, rfl⟩
  have ended : Run (Restrict HttpStep fun world event =>
      event.Alone world ∧ event.Arrives (fun _ => pagePeer) world) httpWorld
      (requestEvents ++ [headersSegment] ++ [textSegment]) (httpAfter headedWorld textSegment) :=
    headed.next ⟨⟨trivial, text_arrives⟩, rfl⟩
  have reported : ∃ report ∈ (httpAfter headedWorld textSegment).user.reports,
      report.Unmeasured :=
    page_transfer.2.2.2.1.2.2.2
  generalize httpAfter headedWorld textSegment = finish at ended reported ⊢
  obtain ⟨report, member, unmeasured⟩ := reported
  exact ⟨report, member, unmeasured, (clean_close_is_complete fun _ => pagePeer).2 httpWorld
    finish _ ⟨rfl, rfl, rfl⟩ ended report member unmeasured⟩

end Charis.Net
