import Charis.Net.Http
import Charis.Net.TcpStream

/-!
# Requests and their connections

The HTTP client has one request at a time, the resolver one lookup and the TCP client one
connection, and each of the three ends on its own.  As long as no request starts while
a connection is alive, the callbacks of a request are only called for its own lookup and
its own connection, and a response that ends with the connection has all of its bytes.
-/

namespace Charis.Net

open Charis.Lib

/-- What can happen to the three clients, in any order. -/
inductive HttpEvent where
  | dnsInit
  | tcpInit
  | get (request : HttpRequest)
  | cancel
  | dnsInput (sourcePort : BitVec 16) (sourceIp : Ipv4) (payload : List UInt8)
  | dnsPoll
  | tcpInput (src dst : Ipv4) (bytes : List UInt8)
  | tcpPoll
  | other (stack : Stack)

/-- The effect of an event. -/
def httpAfter (world : World Nat Http) : HttpEvent → World Nat Http
  | .dnsInit => (netDnsInit world).2
  | .tcpInit => netTcpInit world
  | .get request => (netHttpGet request world).2
  | .cancel => netHttpCancel world
  | .dnsInput sourcePort sourceIp payload =>
      handleDnsResponse httpCallbacks sourcePort sourceIp payload world
  | .dnsPoll => netDnsPoll httpCallbacks world
  | .tcpInput src dst bytes => netTcpInput httpCallbacks world src dst bytes
  | .tcpPoll => netTcpPoll httpCallbacks world
  | .other stack => { world with stack }

def HttpStep (world : World Nat Http) (event : HttpEvent) (world' : World Nat Http) : Prop :=
  world' = httpAfter world event

/-- The call reports success for a response without `Content-Length`. -/
def HttpReport.Unmeasured (report : HttpReport) : Prop :=
  report.call = .complete true ∧ report.measured = false

instance (report : HttpReport) : Decidable report.Unmeasured :=
  inferInstanceAs (Decidable (_ ∧ _))

/-- Reports of success agree with the record of a connection: the response is what the
connection has delivered, and it was closed cleanly. -/
def Agrees (reports : List HttpReport) (number : Nat) (connection : Connection) : Prop :=
  ∀ report ∈ reports, report.connection = number → report.Unmeasured →
    report.response = connection.delivered ∧ true ∈ connection.closes

/-- One of the callbacks of a request. -/
def Http.HasCallback (http : Http) (owner : Nat) : Prop :=
  http.headersCallback = some owner ∨ http.bodyCallback = some owner ∨
    http.completeCallback = some owner

/-- One of the callbacks of a connection. -/
def Tcp.HasCallback {κ : Type} (tcp : Tcp κ) (key : κ) : Prop :=
  tcp.connectCallback = some key ∨ tcp.dataCallback = some key ∨ tcp.closeCallback = some key

/-- The three clients belong to the same request as long as it is active. -/
structure Tracks (world : World Nat Http) : Prop where
  owners : world.user.active = true → ∀ owner, world.user.HasCallback owner →
    owner = world.user.number
  resolver : world.user.active = true → world.dns.active = true →
    (∀ key, world.dns.pendingCallback = some key → key = world.user.number) ∧
      world.tcp.state = .closed ∧ world.user.response = []
  client : world.user.active = true → ∀ key, world.tcp.HasCallback key →
    key = world.user.number
  paired : world.tcp.dataCallback = world.tcp.closeCallback
  idle : world.tcp.state = .closed → ∀ key, ¬ world.tcp.HasCallback key
  ready : world.tcp.initialized = false → world.tcp.state = .closed
  linked : world.user.active = true → world.tcp.dataCallback.isSome = true →
    world.user.response = world.tcp.current.delivered
  unclosed : world.tcp.state ≠ .closed → world.tcp.current.closes = []
  bounded : ∀ report ∈ world.user.reports, report.connection ≤ world.tcp.past.length
  caused : ∀ report ∈ world.user.reports, ∀ key, report.cause = some key →
    key = report.owner
  agrees : world.tcp.Records (Agrees world.user.reports)

/-- Nothing has changed that concerns the use of a connection. -/
structure SameSession {κ : Type} (before after : Tcp κ) : Prop where
  past : after.past = before.past
  delivered : after.current.delivered = before.current.delivered
  closes : after.current.closes = before.current.closes
  state : after.state = before.state
  connectCallback : after.connectCallback = before.connectCallback
  dataCallback : after.dataCallback = before.dataCallback
  closeCallback : after.closeCallback = before.closeCallback
  initialized : after.initialized = before.initialized

theorem SameReceiver.sameSession {κ : Type} {before after : Tcp κ}
    (same : SameReceiver before after)
    (connectCallback : after.connectCallback = before.connectCallback) :
    SameSession before after :=
  ⟨same.past, same.delivered, same.closes, same.state, connectCallback, same.dataCallback,
    same.closeCallback, same.initialized⟩

namespace SameSession

variable {κ σ : Type}

theorem emitSegment (world : World κ σ) (kind : Sent → SegmentKind) (flags : BitVec 8)
    (sequence acknowledgement : BitVec 32) (payload : List UInt8) :
    SameSession world.tcp
      (emitSegment world kind flags sequence acknowledgement payload).2.tcp :=
  (SameReceiver.emitSegment world kind flags sequence acknowledgement payload).sameSession
    (by rw [emitSegment_tcp]; rfl)

theorem emitAck (world : World κ σ) : SameSession world.tcp (emitAck world).tcp :=
  emitSegment world _ _ _ _ _

theorem netTcpSend (world : World κ σ) (data : List UInt8) :
    SameSession world.tcp (netTcpSend world data).2.tcp := by
  refine (SameReceiver.netTcpSend world data).sameSession ?_
  simp only [Net.netTcpSend]
  split
  · rfl
  split
  · rfl
  · simp only [emitSegment_tcp]
    generalize (Net.emitSegment _ _ _ _ _ _).1 = result
    cases result <;> rfl

theorem acknowledgePayload (world : World κ σ) (segment : Segment) :
    SameSession world.tcp (acknowledgePayload world segment).tcp := by
  refine (SameReceiver.acknowledgePayload world segment).sameSession ?_
  simp only [Net.acknowledgePayload]
  split <;> rfl

theorem pollSyn (world : World κ σ) : SameSession world.tcp (pollSyn world).2.tcp := by
  refine (SameReceiver.pollSyn world).sameSession ?_
  have sent := (emitSegment world (fun _ => .syn) 0x02 world.tcp.initialSeq 0 []).connectCallback
  simp only [Net.pollSyn]
  generalize Net.emitSegment _ _ _ _ _ _ = emitted at sent ⊢
  split <;> exact sent

theorem pollPayload (world : World κ σ) :
    SameSession world.tcp (pollPayload world).2.tcp := by
  refine (SameReceiver.pollPayload world).sameSession ?_
  have sent := (emitSegment world
    (fun _ => .payload (world.tcp.current.accepted.length - world.tcp.txPayload.length)) 0x18
    world.tcp.txSequence world.tcp.remoteSeq world.tcp.txPayload).connectCallback
  simp only [Net.pollPayload]
  generalize Net.emitSegment _ _ _ _ _ _ = emitted at sent ⊢
  split <;> exact sent

end SameSession

/-- What a parser of the head sets is what the head says. -/
def SetsHead (before after : Http) : Prop :=
  ∃ responseStatus hasContentLength expectedBody chunkedEncoding, after =
    { before with responseStatus, hasContentLength, expectedBody, chunkedEncoding }

namespace SetsHead

theorem refl (http : Http) : SetsHead http http := ⟨_, _, _, _, rfl⟩

theorem trans {before middle after : Http} (first : SetsHead before middle)
    (second : SetsHead middle after) : SetsHead before after := by
  obtain ⟨_, _, _, _, rfl⟩ := first
  obtain ⟨_, _, _, _, rfl⟩ := second
  exact ⟨_, _, _, _, rfl⟩

theorem parseField {http after : Http} {name value : List UInt8}
    (parsed : parseField http name value = some after) : SetsHead http after := by
  simp only [Net.parseField] at parsed
  repeat' split at parsed
  all_goals cases parsed
  all_goals exact ⟨_, _, _, _, rfl⟩

theorem parseFields (text : List UInt8) (headersEnd steps line : Nat) (http : Http) :
    SetsHead http (parseFields text headersEnd steps line http).2 := by
  induction steps generalizing line http with
  | zero => exact .refl http
  | succ steps ih =>
  simp only [Net.parseFields]
  split
  · exact .refl http
  split
  · exact .refl http
  split
  · exact .refl http
  split
  · exact .refl http
  split
  · exact .refl http
  · next parsed => exact (parseField parsed).trans (ih _ _)

theorem parseHeaders (http : Http) : ∃ head, SetsHead http head ∧
    (parseHeaders http).2 =
      { head with headersDone := (Net.parseHeaders http).1 || http.headersDone } := by
  have unmarked {head : Http} (sets : SetsHead http head) : ∃ head', SetsHead http head' ∧
      head = { head' with headersDone := false || http.headersDone } := by
    have undone : head.headersDone = http.headersDone := by
      obtain ⟨_, _, _, _, rfl⟩ := sets
      rfl
    rw [Bool.false_or, ← undone]
    exact ⟨head, sets, rfl⟩
  simp only [Net.parseHeaders]
  split
  · exact unmarked (.refl http)
  split
  · exact unmarked (.refl http)
  split
  · exact unmarked (.refl http)
  split
  · exact unmarked (.refl http)
  split
  · exact unmarked ⟨_, _, _, _, rfl⟩
  · generalize outcome : Net.parseFields _ _ _ _ _ = parsed
    have fields := outcome ▸ parseFields _ _ _ _ _
    have sets : SetsHead http parsed.2 := SetsHead.trans ⟨_, _, _, _, rfl⟩ fields
    obtain ⟨ok, after⟩ := parsed
    cases ok with
    | false => exact unmarked sets
    | true =>
        simp only
        split
        · exact unmarked sets
        · exact ⟨after, sets, rfl⟩

end SetsHead

/-- Nothing has changed that concerns the use of a request. -/
structure SameRequest (before after : Http) : Prop where
  active : after.active = before.active
  number : after.number = before.number
  headersCallback : after.headersCallback = before.headersCallback
  bodyCallback : after.bodyCallback = before.bodyCallback
  completeCallback : after.completeCallback = before.completeCallback
  response : after.response = before.response
  reports : after.reports = before.reports

namespace SameRequest

theorem trans {before middle after : Http} (first : SameRequest before middle)
    (second : SameRequest middle after) : SameRequest before after :=
  ⟨second.active.trans first.active, second.number.trans first.number,
    second.headersCallback.trans first.headersCallback,
    second.bodyCallback.trans first.bodyCallback,
    second.completeCallback.trans first.completeCallback, second.response.trans first.response,
    second.reports.trans first.reports⟩

theorem parseHeaders (http : Http) : SameRequest http (parseHeaders http).2 := by
  obtain ⟨_, ⟨_, _, _, _, rfl⟩, same⟩ := SetsHead.parseHeaders http
  rw [same]
  exact ⟨rfl, rfl, rfl, rfl, rfl, rfl, rfl⟩

end SameRequest

/-! ## Steps that keep the invariant -/

namespace Tracks

variable {world : World Nat Http}

theorem alive (tracks : Tracks world) {key : Nat} (has : world.tcp.HasCallback key) :
    world.tcp.state ≠ .closed :=
  fun closed => tracks.idle closed key has

theorem records_of {reports : List HttpReport} {before after : Tcp Nat}
    (records : before.Records (Agrees reports)) (same : SameSession before after) :
    after.Records (Agrees reports) where
  past := fun number connection found =>
    records.past number connection (same.past ▸ found)
  current := by
    intro report member place unmeasured
    rw [same.past] at place
    rw [same.delivered, same.closes]
    exact records.current report member place unmeasured

theorem hasCallback_of {κ : Type} {before after : Tcp κ} (same : SameSession before after)
    {key : κ} : after.HasCallback key ↔ before.HasCallback key := by
  simp only [Tcp.HasCallback, same.connectCallback, same.dataCallback, same.closeCallback]

theorem withTcp (tracks : Tracks world) {stack : Stack} {tcp : Tcp Nat}
    (same : SameSession world.tcp tcp) : Tracks { world with stack, tcp } where
  owners := tracks.owners
  resolver := fun active waiting => by
    simp only [same.state]
    exact tracks.resolver active waiting
  client := fun active key has => tracks.client active key ((hasCallback_of same).mp has)
  paired := by simp only [same.dataCallback, same.closeCallback, tracks.paired]
  idle := fun closed key has =>
    tracks.idle (same.state ▸ closed) key ((hasCallback_of same).mp has)
  ready := fun unready => same.state.trans (tracks.ready (same.initialized ▸ unready))
  linked := fun active listening => by
    simp only [same.delivered]
    exact tracks.linked active (same.dataCallback ▸ listening)
  unclosed := fun alive => same.closes.trans (tracks.unclosed fun closed =>
    alive (same.state.trans closed))
  bounded := fun report member => by
    simp only [same.past]
    exact tracks.bounded report member
  caused := tracks.caused
  agrees := records_of tracks.agrees same

theorem transfer {after : World Nat Http} (tracks : Tracks world)
    (same : SameSession world.tcp after.tcp) (dns : after.dns = world.dns)
    (user : after.user = world.user) : Tracks after := by
  obtain ⟨stack, tcp, _, _⟩ := after
  subst dns user
  exact tracks.withTcp same

theorem withUser (tracks : Tracks world) {http : Http} (same : SameRequest world.user http) :
    Tracks { world with user := http } where
  owners := fun active owner has => by
    simp only [Http.HasCallback, same.headersCallback, same.bodyCallback,
      same.completeCallback] at has
    simp only [same.number]
    exact tracks.owners (same.active ▸ active) owner has
  resolver := fun active waiting => by
    simp only [same.number, same.response]
    exact tracks.resolver (same.active ▸ active) waiting
  client := fun active key has => by
    simp only [same.number]
    exact tracks.client (same.active ▸ active) key has
  paired := tracks.paired
  idle := tracks.idle
  ready := tracks.ready
  linked := fun active listening => by
    simp only [same.response]
    exact tracks.linked (same.active ▸ active) listening
  unclosed := tracks.unclosed
  bounded := by
    simp only [same.reports]
    exact tracks.bounded
  caused := by
    simp only [same.reports]
    exact tracks.caused
  agrees := by
    simp only [same.reports]
    exact tracks.agrees

/-- A connection that is cleared without a call. -/
theorem clear (tracks : Tracks world) :
    Tracks { world with tcp := clearConnection world.tcp } where
  owners := tracks.owners
  resolver := fun active waiting =>
    ⟨(tracks.resolver active waiting).1, rfl, (tracks.resolver active waiting).2.2⟩
  client := fun _ key has => by simp [Tcp.HasCallback, clearConnection] at has
  paired := rfl
  idle := fun _ key has => by simp [Tcp.HasCallback, clearConnection] at has
  ready := fun _ => rfl
  linked := fun _ listening => by simp [clearConnection] at listening
  unclosed := fun alive => absurd rfl alive
  bounded := tracks.bounded
  caused := tracks.caused
  agrees := ⟨tracks.agrees.past, tracks.agrees.current⟩

theorem emitAck (tracks : Tracks world) : Tracks (emitAck world) := by
  have same := SameSession.emitAck world
  have rest := emitSegment_rest world (fun _ => .acknowledge) 0x10 world.tcp.localSeq
    world.tcp.remoteSeq []
  unfold Net.emitAck at same ⊢
  exact tracks.transfer same rest.1 rest.2

theorem netTcpSend_rest (world : World Nat Http) (data : List UInt8) :
    (netTcpSend world data).2.dns = world.dns ∧ (netTcpSend world data).2.user = world.user := by
  simp only [netTcpSend]
  split
  · exact ⟨rfl, rfl⟩
  split
  · exact ⟨rfl, rfl⟩
  generalize emitted : emitSegment _ _ _ _ _ _ = outcome
  have rest : outcome.2.dns = world.dns ∧ outcome.2.user = world.user := by
    rw [← emitted]
    exact emitSegment_rest _ _ _ _ _ _
  split <;> exact rest

/-- A report that is none of success, or one of success for the bytes of a connection
that was closed cleanly. -/
theorem report (tracks : Tracks world) {callback cause : Option Nat} {call : HttpCall}
    (owner : ∀ owner, callback = some owner → owner = world.user.number)
    (mine : callback.isSome = true → ∀ key, cause = some key → key = world.user.number)
    (success : call = .complete true → world.user.hasContentLength = false →
      world.user.response = world.tcp.current.delivered ∧ true ∈ world.tcp.current.closes) :
    Tracks { world with
      user := world.user.report callback cause world.tcp.past.length call } := by
  cases callback with
  | none => exact tracks
  | some own =>
  obtain rfl := owner own rfl
  exact {
    owners := tracks.owners
    resolver := tracks.resolver
    client := tracks.client
    paired := tracks.paired
    idle := tracks.idle
    ready := tracks.ready
    linked := tracks.linked
    unclosed := tracks.unclosed
    bounded := by
      intro reported member
      rcases List.mem_append.mp member with old | new
      · exact tracks.bounded reported old
      · rw [List.mem_singleton] at new
        subst new
        exact Nat.le_refl _
    caused := by
      intro reported member key caused
      rcases List.mem_append.mp member with old | new
      · exact tracks.caused reported old key caused
      · rw [List.mem_singleton] at new
        subst new
        exact mine rfl key caused
    agrees := {
      past := by
        intro number connection found reported member place unmeasured
        rcases List.mem_append.mp member with old | new
        · exact tracks.agrees.past number connection found reported old place unmeasured
        · rw [List.mem_singleton] at new
          subst new
          obtain ⟨inside, -⟩ := List.getElem?_eq_some_iff.mp found
          exact absurd place (Nat.ne_of_gt inside)
      current := by
        intro reported member place unmeasured
        rcases List.mem_append.mp member with old | new
        · exact tracks.agrees.current reported old place unmeasured
        · rw [List.mem_singleton] at new
          subst new
          exact success unmeasured.1 unmeasured.2 } }

/-- A connection that is told to wait for the end of the peer. -/
theorem waiting (tracks : Tracks world) (alive : world.tcp.state = .established)
    {localSeq : BitVec 32} :
    Tracks { world with
      tcp := { world.tcp with localSeq, state := .finWait, retries := 0, pollTicks := 0 } } where
  owners := tracks.owners
  resolver := fun active waiting => by
    have closed := (tracks.resolver active waiting).2.1
    rw [alive] at closed
    cases closed
  client := tracks.client
  paired := tracks.paired
  idle := fun closed => by cases closed
  ready := fun unready => by
    have closed := tracks.ready unready
    rw [alive] at closed
    cases closed
  linked := tracks.linked
  unclosed := fun _ => tracks.unclosed (by rw [alive]; decide)
  bounded := tracks.bounded
  caused := tracks.caused
  agrees := ⟨tracks.agrees.past, tracks.agrees.current⟩

theorem netTcpClose (tracks : Tracks world) : Tracks (netTcpClose world) := by
  simp only [Net.netTcpClose]
  split
  case isFalse => exact tracks.clear
  case isTrue opened =>
  have same := SameSession.emitSegment world (fun _ => .fin) 0x11 world.tcp.localSeq
    world.tcp.remoteSeq []
  have sent : Tracks (emitSegment world (fun _ => .fin) 0x11 world.tcp.localSeq
    world.tcp.remoteSeq []).2 :=
    tracks.transfer same (emitSegment_rest ..).1 (emitSegment_rest ..).2
  generalize emitSegment _ _ _ _ _ _ = emitted at same sent ⊢
  split
  · exact sent.waiting (same.state.trans opened)
  · exact sent.clear

theorem netTcpClose_user (world : World Nat Http) : (Net.netTcpClose world).user = world.user := by
  simp only [Net.netTcpClose]
  split
  · have rest := emitSegment_rest world (fun _ => .fin) 0x11 world.tcp.localSeq
      world.tcp.remoteSeq []
    generalize emitSegment _ _ _ _ _ _ = emitted at rest ⊢
    split <;> exact rest.2
  · rfl

theorem netTcpClose_record (world : World Nat Http) :
    (Net.netTcpClose world).tcp.past = world.tcp.past ∧
      (Net.netTcpClose world).tcp.current.delivered = world.tcp.current.delivered ∧
      (Net.netTcpClose world).tcp.current.closes = world.tcp.current.closes := by
  simp only [Net.netTcpClose]
  split
  · have same := SameSession.emitSegment world (fun _ => .fin) 0x11 world.tcp.localSeq
      world.tcp.remoteSeq []
    generalize emitSegment _ _ _ _ _ _ = emitted at same ⊢
    split <;> exact ⟨same.past, same.delivered, same.closes⟩
  · exact ⟨rfl, rfl, rfl⟩

/-- A request that ends without a call yet. -/
theorem deactivate (tracks : Tracks world) :
    Tracks { world with
      user := { world.user with
        active := false
        completeCallback := none
        headersCallback := none
        bodyCallback := none } } where
  owners := fun active => by cases active
  resolver := fun active => by cases active
  client := fun active => by cases active
  paired := tracks.paired
  idle := tracks.idle
  ready := tracks.ready
  linked := fun active => by cases active
  unclosed := tracks.unclosed
  bounded := tracks.bounded
  caused := tracks.caused
  agrees := tracks.agrees

theorem finishRequest (tracks : Tracks world) {cause : Option Nat} {success : Bool}
    (closeTcp : Bool)
    (mine : world.user.active = true → ∀ key, cause = some key → key = world.user.number)
    (whole : success = true → world.user.hasContentLength = false →
      world.user.response = world.tcp.current.delivered ∧ true ∈ world.tcp.current.closes) :
    Tracks (finishRequest cause success closeTcp world) := by
  simp only [Net.finishRequest]
  split
  · exact tracks
  next active =>
  have active : world.user.active = true := by simpa using active
  have owner (owner : Nat) (own : world.user.completeCallback = some owner) :
      owner = world.user.number := tracks.owners active owner (.inr (.inr own))
  have ended := tracks.deactivate
  cases closeTcp with
  | false =>
      exact ended.report owner (fun _ => mine active) fun call => whole (by simpa using call)
  | true =>
  have closed := ended.netTcpClose
  have user := netTcpClose_user { world with
    user := { world.user with
      active := false
      completeCallback := none
      headersCallback := none
      bodyCallback := none } }
  have record := netTcpClose_record { world with
    user := { world.user with
      active := false
      completeCallback := none
      headersCallback := none
      bodyCallback := none } }
  simp only [↓reduceIte]
  generalize Net.netTcpClose _ = after at closed user record ⊢
  refine closed.report (by rw [user]; exact owner) (by rw [user]; exact fun _ => mine active)
    fun call => ?_
  rw [user, record.2.1, record.2.2]
  exact whole (by simpa using call)

theorem report_fields (http : Http) (callback cause : Option Nat) (connection : Nat)
    (call : HttpCall) :
    (http.report callback cause connection call).active = http.active ∧
      (http.report callback cause connection call).number = http.number ∧
      (http.report callback cause connection call).hasContentLength = http.hasContentLength := by
  cases callback <;> exact ⟨rfl, rfl, rfl⟩

/-- The header loop calls the callback for headers and changes nothing else that
matters. -/
theorem readHeaders {key : Nat} (tracks : Tracks world) (active : world.user.active = true)
    (mine : key = world.user.number) (data : List UInt8) :
    Tracks { world with
        user := (readHeaders key world.tcp.past.length world.user data).2.1 } ∧
      (Net.readHeaders key world.tcp.past.length world.user data).2.1.active = true ∧
      (Net.readHeaders key world.tcp.past.length world.user data).2.1.number = key := by
  obtain ⟨stack, tcp, dns, http⟩ := world
  simp only at active mine ⊢
  induction data generalizing http with
  | nil => exact ⟨tracks, active, mine.symm⟩
  | cons byte rest ih =>
  simp only [Net.readHeaders]
  split
  · exact ⟨tracks, active, mine.symm⟩
  split
  · exact ⟨tracks, active, mine.symm⟩
  have grown : SameRequest http { http with headerBuffer := http.headerBuffer ++ [byte] } :=
    ⟨rfl, rfl, rfl, rfl, rfl, rfl, rfl⟩
  split
  · have parsed := grown.trans (SameRequest.parseHeaders _)
    generalize parseHeaders _ = outcome at parsed ⊢
    rcases outcome with ⟨ok, after⟩
    have kept := tracks.withUser parsed
    have active' : after.active = true := parsed.active.trans active
    have number : after.number = key := parsed.number.trans mine.symm
    cases ok with
    | false => exact ⟨kept, active', number⟩
    | true =>
    have fields := report_fields after after.headersCallback (some key) tcp.past.length
      (.headers after.responseStatus after.hasContentLength after.expectedBody)
    refine ih _ (kept.report ?_ ?_ ?_) (fields.1.trans active')
      (number.symm.trans fields.2.1.symm)
    · exact fun owner own => kept.owners active' owner (.inl own)
    · rintro - _ ⟨⟩
      exact number.symm
    · rintro ⟨⟩
  · exact ih _ (tracks.withUser grown) active mine

theorem deliverBody {key : Nat} (tracks : Tracks world)
    (mine : world.user.active = true → key = world.user.number) (data : List UInt8) :
    Tracks (deliverBody key data world) := by
  simp only [Net.deliverBody]
  split
  · exact tracks
  next inside =>
  have active : world.user.active = true := by
    rw [not_or] at inside
    simpa using inside.2
  generalize bodyPart world.user data = part
  have reported : Tracks { world with
      user := if part.length = 0 then world.user
        else world.user.report world.user.bodyCallback (some key) world.tcp.past.length
          (.body part) } := by
    split
    · exact tracks
    · refine tracks.report (fun owner own => tracks.owners active owner (.inr (.inl own))) ?_ ?_
      · rintro - _ ⟨⟩
        exact mine active
      · rintro ⟨⟩
  have fields : (if part.length = 0 then world.user
      else world.user.report world.user.bodyCallback (some key) world.tcp.past.length
        (.body part)).number = world.user.number := by
    split
    · rfl
    · exact (report_fields _ _ _ _ _).2.1
  generalize (if part.length = 0 then world.user
    else world.user.report world.user.bodyCallback (some key) world.tcp.past.length
      (.body part)) = http at reported fields ⊢
  have counted : Tracks { world with
      user := { http with
        receivedBody := http.receivedBody + BitVec.ofNat 32 part.length } } :=
    reported.withUser ⟨rfl, rfl, rfl, rfl, rfl, rfl, rfl⟩
  split
  · next measured =>
      refine counted.finishRequest true ?_ fun _ unmeasured => ?_
      · rintro - _ ⟨⟩
        exact (mine active).trans fields.symm
      · rw [measured.1] at unmeasured
        cases unmeasured
  · exact counted

theorem countPayload_eq (world : World Nat Http) (payload : List UInt8) :
    countPayload world payload = { world with tcp := (countPayload world payload).tcp } := by
  simp only [countPayload]
  split <;> rfl

/-- Payload that is counted and goes to the request, if that is active. -/
theorem counted {key : Nat} (tracks : Tracks world)
    (listening : world.tcp.dataCallback = some key) (payload : List UInt8) {http : Http}
    (same : SameRequest
      { world.user with response := if world.user.active then world.user.response ++ payload
          else world.user.response } http) :
    Tracks { countPayload world payload with user := http } := by
  have alive := tracks.alive (.inr (.inl listening))
  have isSome : world.tcp.dataCallback.isSome = true := by rw [listening]; rfl
  have tcp := countPayload_of_listening isSome payload
  have dns : (countPayload world payload).dns = world.dns := by rw [countPayload_eq]
  have silent : Agrees world.user.reports world.tcp.past.length
      { world.tcp.current with delivered := world.tcp.current.delivered ++ payload } := by
    intro report member place unmeasured
    have closed := (tracks.agrees.current report member place unmeasured).2
    rw [tracks.unclosed alive] at closed
    cases closed
  have kept : Tracks { countPayload world payload with
      user := { world.user with response := if world.user.active then
        world.user.response ++ payload else world.user.response } } := {
    owners := tracks.owners
    resolver := fun active waiting =>
      absurd (tracks.resolver active (dns ▸ waiting)).2.1 alive
    client := fun active key has => by
      simp only [tcp] at has
      exact tracks.client active key has
    paired := by simp only [tcp, tracks.paired]
    idle := fun closed => by
      simp only [tcp] at closed
      exact absurd closed alive
    ready := fun unready => by
      simp only [tcp] at unready
      exact absurd (tracks.ready unready) alive
    linked := fun active _ => by
      have active : world.user.active = true := active
      simp only [tcp, active, ↓reduceIte, tracks.linked active isSome]
    unclosed := fun _ => by
      simp only [tcp]
      exact tracks.unclosed alive
    bounded := by
      simp only [tcp]
      exact tracks.bounded
    caused := tracks.caused
    agrees := by
      simp only [tcp]
      exact ⟨tracks.agrees.past, silent⟩ }
  exact kept.withUser same

theorem httpOnData {key : Nat} (tracks : Tracks world)
    (listening : world.tcp.dataCallback = some key) (payload : List UInt8) :
    Tracks (httpOnData key payload (countPayload world payload)) := by
  have user : (countPayload world payload).user = world.user := by rw [countPayload_eq]
  simp only [Net.httpOnData, user]
  split
  · next inactive =>
      have inactive : world.user.active = false := by simpa using inactive
      have kept : Tracks { countPayload world payload with user := world.user } :=
        tracks.counted listening payload
          ⟨rfl, rfl, rfl, rfl, rfl, (if_neg (by simp [inactive])).symm, rfl⟩
      rw [← user] at kept
      exact kept
  next active =>
  have active : world.user.active = true := by simpa using active
  have mine : key = world.user.number := tracks.client active key (.inr (.inl listening))
  have kept : Tracks { countPayload world payload with
      user := { world.user with response := world.user.response ++ payload } } :=
    tracks.counted listening payload
      ⟨rfl, rfl, rfl, rfl, rfl, (if_pos active).symm, rfl⟩
  split
  · exact kept.deliverBody (fun _ => mine) payload
  next headers =>
  have read := kept.readHeaders active mine payload
  simp only at read
  generalize Net.readHeaders _ _ _ _ = outcome at read ⊢
  obtain ⟨ok, http, rest⟩ := outcome
  obtain ⟨kept, active', number⟩ := read
  have own : http.active = true → ∀ other, some key = some other → other = http.number := by
    rintro - _ ⟨⟩
    exact number.symm
  cases ok with
  | false => exact kept.finishRequest true own (fun success => by cases success)
  | true =>
  simp only
  split
  · next empty =>
      refine kept.finishRequest true own fun _ unmeasured => ?_
      simp only [empty.2.1] at unmeasured
      cases unmeasured
  split
  · exact kept.deliverBody (fun _ => number.symm) rest
  · exact kept

theorem deliverPayload (tracks : Tracks world) (payload : List UInt8) :
    Tracks (deliverPayload httpCallbacks world payload) := by
  refine emitAck ?_
  cases listening : world.tcp.dataCallback with
  | none =>
      have deaf : ¬ world.tcp.dataCallback.isSome = true := by rw [listening]; simp
      have tcp := countPayload_of_deaf deaf payload
      have callback : (countPayload world payload).tcp.dataCallback = none := by
        rw [tcp, listening]
      rw [callback]
      have same : SameSession world.tcp (countPayload world payload).tcp := by
        rw [tcp]
        exact ⟨rfl, rfl, rfl, rfl, rfl, rfl, rfl, rfl⟩
      exact tracks.transfer same (by rw [callIf, countPayload_eq]) (by rw [callIf, countPayload_eq])
  | some key =>
      have callback : (countPayload world payload).tcp.dataCallback = some key := by
        rw [countPayload_of_listening (by rw [listening]; rfl), listening]
      rw [callback]
      exact tracks.httpOnData listening payload

/-- The record of a connection whose close callback is about to be called. -/
theorem clearForClose (tracks : Tracks world) (clean : Bool) :
    Tracks (clearForClose world clean) := by
  have noted : Tracks { world with tcp := clearConnection world.tcp } := tracks.clear
  simp only [Net.clearForClose, Tcp.noteClose]
  split
  · next told =>
    obtain ⟨key, told⟩ := Option.isSome_iff_exists.mp told
    have alive := tracks.alive (.inr (.inr told))
    exact {
      owners := noted.owners
      resolver := noted.resolver
      client := noted.client
      paired := noted.paired
      idle := noted.idle
      ready := noted.ready
      linked := fun _ listening => by cases listening
      unclosed := fun alive => absurd rfl alive
      bounded := noted.bounded
      caused := noted.caused
      agrees := {
        past := tracks.agrees.past
        current := by
          intro report member place unmeasured
          have closed := (tracks.agrees.current report member place unmeasured).2
          rw [tracks.unclosed alive] at closed
          cases closed } }
  · exact noted

theorem httpOnClosed {key : Nat} (tracks : Tracks world)
    (told : world.tcp.closeCallback = some key) (clean : Bool) :
    Tracks (httpOnClosed key clean (Net.clearForClose world clean)) := by
  have cleared := tracks.clearForClose clean
  have listening : world.tcp.dataCallback.isSome = true := by
    rw [tracks.paired, told]
    rfl
  have record : (Net.clearForClose world clean).tcp.current =
      { world.tcp.current with closes := world.tcp.current.closes ++ [clean] } := by
    simp only [Net.clearForClose, Tcp.noteClose, told, Option.isSome_some, ↓reduceIte]
    rfl
  have user : (Net.clearForClose world clean).user = world.user := rfl
  simp only [Net.httpOnClosed]
  split
  · exact cleared
  next active =>
  have active : world.user.active = true := by simpa [user] using active
  refine cleared.finishRequest false ?_ ?_
  · rintro - _ ⟨⟩
    exact tracks.client active key (.inr (.inr told))
  · intro success _
    rw [record, user]
    simp only [Bool.and_eq_true] at success
    exact ⟨tracks.linked active listening, by simp [success.1.1]⟩

theorem httpOnConnect {key : Nat} (tracks : Tracks world) (connected : Bool)
    (mine : world.user.active = true → key = world.user.number) :
    Tracks (httpOnConnect key connected world) := by
  have own : world.user.active = true → ∀ other, some key = some other →
      other = world.user.number := by
    rintro active _ ⟨⟩
    exact mine active
  have failed (now : World Nat Http) (good : Tracks now) (user : now.user = world.user)
      (closeTcp : Bool) : Tracks (Net.finishRequest (some key) false closeTcp now) :=
    good.finishRequest closeTcp (user ▸ own) (fun success => by cases success)
  simp only [Net.httpOnConnect]
  split
  · exact tracks
  split
  · exact failed world tracks rfl false
  split
  · exact failed world tracks rfl true
  next text _ =>
  have sent := SameSession.netTcpSend world text
  have rest := netTcpSend_rest world text
  generalize netTcpSend _ _ = outcome at sent rest ⊢
  obtain ⟨result, after⟩ := outcome
  have kept : Tracks after := tracks.transfer sent rest.1 rest.2
  split
  · next now same =>
      cases same
      exact failed _ kept rest.2 true
  · next same =>
      cases same
      exact kept

theorem abortConnection (tracks : Tracks world) :
    Tracks (abortConnection httpCallbacks world) := by
  simp only [Net.abortConnection]
  split
  · cases told : world.tcp.connectCallback with
    | none => exact tracks.clear
    | some key =>
        exact tracks.clear.httpOnConnect false fun active =>
          tracks.client active key (.inl told)
  · cases told : world.tcp.closeCallback with
    | none => exact tracks.clearForClose false
    | some key => exact tracks.httpOnClosed told false

theorem dropConnect (tracks : Tracks world) :
    Tracks { world with tcp := { world.tcp with connectCallback := none } } where
  owners := tracks.owners
  resolver := tracks.resolver
  client := fun active key has =>
    tracks.client active key (has.imp (fun absent => by cases absent) id)
  paired := tracks.paired
  idle := fun closed key has =>
    tracks.idle closed key (has.imp (fun absent => by cases absent) id)
  ready := tracks.ready
  linked := tracks.linked
  unclosed := tracks.unclosed
  bounded := tracks.bounded
  caused := tracks.caused
  agrees := ⟨tracks.agrees.past, tracks.agrees.current⟩

theorem openConnection (tracks : Tracks world) (opening : world.tcp.state = .synSent)
    (segment : Segment) : Tracks (openConnection world segment) := by
  have alive : world.tcp.state ≠ .closed := by rw [opening]; decide
  have opened : Tracks { world with
      tcp := { world.tcp with
        remoteSeq := segment.sequence + 1
        localSeq := world.tcp.localSeq + 1
        state := .established } } := {
    owners := tracks.owners
    resolver := fun active waiting => absurd (tracks.resolver active waiting).2.1 alive
    client := tracks.client
    paired := tracks.paired
    idle := fun closed => by cases closed
    ready := fun unready => absurd (tracks.ready unready) alive
    linked := tracks.linked
    unclosed := fun _ => tracks.unclosed alive
    bounded := tracks.bounded
    caused := tracks.caused
    agrees := ⟨tracks.agrees.past, tracks.agrees.current⟩ }
  have sent := opened.transfer (SameSession.emitSegment _ (fun _ => .handshake) 0x10
    (world.tcp.localSeq + 1) (segment.sequence + 1) []) (emitSegment_rest ..).1
    (emitSegment_rest ..).2
  simp only [Net.openConnection]
  generalize emitSegment _ _ _ _ _ _ = emitted at sent ⊢
  exact sent.dropConnect

theorem openConnection_user (world : World Nat Http) (segment : Segment) :
    (Net.openConnection world segment).user = world.user := by
  simp only [Net.openConnection, emitSegment_rest]

theorem inputSynSent (tracks : Tracks world) (opening : world.tcp.state = .synSent)
    (segment : Segment) : Tracks (inputSynSent httpCallbacks world segment) := by
  cases opens : segment.opens world.tcp with
  | false =>
      rw [inputSynSent_of_not_opens opens]
      exact tracks
  | true =>
  have opened := tracks.openConnection opening segment
  have user := openConnection_user world segment
  have told : Tracks (callIf world.tcp.connectCallback
      (fun key => httpCallbacks.tcpConnect key true) (Net.openConnection world segment)) := by
    cases callback : world.tcp.connectCallback with
    | none => exact opened
    | some key =>
        dsimp only [callIf, httpCallbacks]
        exact opened.httpOnConnect true fun active =>
          user ▸ tracks.client (user ▸ active) key (.inl callback)
  simp only [Net.inputSynSent, opens, Bool.not_true, Bool.false_eq_true, ↓reduceIte]
  generalize callIf _ _ _ = now at told ⊢
  split
  · exact told.deliverPayload _
  · exact told

theorem inputFin (tracks : Tracks world) (segment : Segment) :
    Tracks (inputFin httpCallbacks world segment) := by
  have advanced (count : BitVec 32) : Tracks (advanceRemote world count) :=
    tracks.transfer ⟨rfl, rfl, rfl, rfl, rfl, rfl, rfl, rfl⟩ rfl rfl
  have acknowledged (count : BitVec 32) : Tracks (Net.emitAck (advanceRemote world count)) :=
    (advanced count).emitAck
  have finished (now : World Nat Http) (good : Tracks now) :
      Tracks (callIf now.tcp.closeCallback (fun key => httpCallbacks.tcpClose key true)
        (Net.clearForClose now true)) := by
    cases told : now.tcp.closeCallback with
    | none => exact good.clearForClose true
    | some key => exact good.httpOnClosed told true
  exact finished _ (acknowledged _)

theorem inputOpen (tracks : Tracks world) (segment : Segment) :
    Tracks (inputOpen httpCallbacks world segment) := by
  have acknowledged : Tracks (acknowledgePayload world segment) := by
    refine tracks.transfer (SameSession.acknowledgePayload world segment) ?_ ?_
    all_goals
      simp only [acknowledgePayload]
      split <;> rfl
  have received : Tracks (receivePayload httpCallbacks (acknowledgePayload world segment)
      segment) := by
    simp only [receivePayload]
    split
    · exact acknowledged.deliverPayload _
    · exact acknowledged
  simp only [Net.inputOpen]
  split
  · exact received.inputFin segment
  split
  · exact received.clear
  · exact received

theorem netTcpInput (tracks : Tracks world) (src dst : Ipv4) (bytes : List UInt8) :
    Tracks (netTcpInput httpCallbacks world src dst bytes) := by
  simp only [Net.netTcpInput]
  split
  · exact tracks
  split
  · exact tracks.abortConnection
  split
  · next opening => exact tracks.inputSynSent opening _
  · exact tracks.inputOpen _

theorem pollSyn_rest (world : World Nat Http) :
    (pollSyn world).2.dns = world.dns ∧ (pollSyn world).2.user = world.user := by
  have rest := emitSegment_rest world (fun _ => .syn) 0x02 world.tcp.initialSeq 0 []
  simp only [pollSyn]
  generalize emitSegment _ _ _ _ _ _ = emitted at rest ⊢
  split <;> exact rest

theorem pollPayload_rest (world : World Nat Http) :
    (pollPayload world).2.dns = world.dns ∧ (pollPayload world).2.user = world.user := by
  have rest := emitSegment_rest world
    (fun _ => .payload (world.tcp.current.accepted.length - world.tcp.txPayload.length)) 0x18
    world.tcp.txSequence world.tcp.remoteSeq world.tcp.txPayload
  simp only [pollPayload]
  generalize emitSegment _ _ _ _ _ _ = emitted at rest ⊢
  split <;> exact rest

theorem pollTransmit (tracks : Tracks world) : Tracks (pollTransmit world).2 := by
  refine pollTransmit_keeps tracks (fun _ => ?_) (fun _ _ => ?_) (fun _ _ => ?_)
  · have rest := pollSyn_rest world
    exact tracks.transfer (SameSession.pollSyn world) rest.1 rest.2
  · have rest := pollPayload_rest world
    exact tracks.transfer (SameSession.pollPayload world) rest.1 rest.2
  · exact tracks.transfer (SameSession.emitSegment _ _ _ _ _ _) (emitSegment_rest ..).1
      (emitSegment_rest ..).2

theorem netTcpPoll (tracks : Tracks world) : Tracks (netTcpPoll httpCallbacks world) := by
  have counters (now : World Nat Http) (good : Tracks now) (pollTicks retries : Nat) :
      Tracks { now with tcp := { now.tcp with pollTicks, retries } } :=
    good.transfer ⟨rfl, rfl, rfl, rfl, rfl, rfl, rfl, rfl⟩ rfl rfl
  simp only [Net.netTcpPoll]
  split
  · exact tracks
  split
  · exact counters world tracks _ _
  have reset := counters world tracks 0 world.tcp.retries
  split
  · exact reset.abortConnection
  have sent := reset.pollTransmit
  generalize Net.pollTransmit _ = outcome at sent ⊢
  split
  · exact sent
  · exact counters _ sent _ _

theorem netTcpInit (tracks : Tracks world) : Tracks (netTcpInit world) := by
  simp only [Net.netTcpInit]
  split
  · exact tracks
  next unready =>
  have closed := tracks.ready (by simpa using unready)
  exact {
    owners := tracks.owners
    resolver := fun active waiting =>
      ⟨(tracks.resolver active waiting).1, rfl, (tracks.resolver active waiting).2.2⟩
    client := tracks.client
    paired := tracks.paired
    idle := fun _ => tracks.idle closed
    ready := fun _ => rfl
    linked := tracks.linked
    unclosed := fun alive => absurd rfl alive
    bounded := tracks.bounded
    caused := tracks.caused
    agrees := ⟨tracks.agrees.past, tracks.agrees.current⟩ }

/-- A connection for the active request, whose lookup has ended. -/
theorem netTcpConnect (tracks : Tracks world) (ip : Ipv4) (port : BitVec 16) {key : Nat}
    (found : world.dns.active = false)
    (mine : world.user.active = true → key = world.user.number ∧ world.user.response = []) :
    Tracks (netTcpConnect world ip port key (some key) (some key)).2 ∧
      (Net.netTcpConnect world ip port key (some key) (some key)).2.user = world.user := by
  have ready := tracks.netTcpInit
  have rest : (Net.netTcpInit world).user = world.user ∧
      (Net.netTcpInit world).dns = world.dns := by
    simp only [Net.netTcpInit]
    split <;> exact ⟨rfl, rfl⟩
  have initialized : (Net.netTcpInit world).tcp.initialized = true := by
    simp only [Net.netTcpInit]
    split
    · assumption
    · rfl
  simp only [Net.netTcpConnect]
  generalize Net.netTcpInit world = now at ready rest initialized ⊢
  rw [← rest.1] at mine ⊢
  rw [← rest.2] at found
  have fresh (initialSeq : BitVec 32) : Agrees now.user.reports (now.tcp.past.length + 1)
      ⟨initialSeq, [], [], [], []⟩ := by
    intro report member place
    have := ready.bounded report member
    omega
  split
  · exact ⟨ready, rfl⟩
  split
  · exact ⟨ready, rfl⟩
  refine ⟨?_, rfl⟩
  exact {
    owners := ready.owners
    resolver := fun _ waiting => by
      rw [show now.dns.active = true from waiting] at found
      cases found
    client := fun active other has => by
      have same : key = other := by
        simpa [Tcp.HasCallback] using has
      exact same ▸ (mine active).1
    paired := rfl
    idle := fun closed => by cases closed
    ready := fun unready => by
      rw [show now.tcp.initialized = false from unready] at initialized
      cases initialized
    linked := fun active _ => (mine active).2
    unclosed := fun _ => rfl
    bounded := fun report member => by
      have := ready.bounded report member
      simp only [List.length_append, List.length_singleton]
      omega
    caused := ready.caused
    agrees := ready.agrees.connected rfl (fresh _) }

theorem httpOnDns (tracks : Tracks world) (ip : Ipv4) (success : Bool) {key : Nat}
    (found : world.dns.active = false)
    (mine : world.user.active = true → key = world.user.number ∧ world.user.response = []) :
    Tracks (httpOnDns key ip success world) := by
  have failed (now : World Nat Http) (good : Tracks now) (user : now.user = world.user) :
      Tracks (Net.finishRequest (some key) false false now) := by
    refine good.finishRequest false ?_ (fun success => by cases success)
    rw [user]
    rintro active _ ⟨⟩
    exact (mine active).1
  simp only [Net.httpOnDns]
  split
  · exact tracks
  split
  · exact failed world tracks rfl
  have connected := tracks.netTcpConnect ip 80 found mine
  generalize Net.netTcpConnect _ _ _ _ _ _ = outcome at connected ⊢
  obtain ⟨ok, after⟩ := outcome
  cases ok with
  | true => exact connected.1
  | false => exact failed after connected.1 connected.2

theorem finishQuery (tracks : Tracks world) (waiting : world.dns.active = true)
    (address : Option Ipv4) : Tracks (finishQuery httpCallbacks world address) := by
  have ended (dns : Dns Nat) (idle : dns.active = false) : Tracks { world with dns } := {
    owners := tracks.owners
    resolver := fun _ waiting => by
      rw [show dns.active = true from waiting] at idle
      cases idle
    client := tracks.client
    paired := tracks.paired
    idle := tracks.idle
    ready := tracks.ready
    linked := tracks.linked
    unclosed := tracks.unclosed
    bounded := tracks.bounded
    caused := tracks.caused
    agrees := tracks.agrees }
  simp only [Net.finishQuery]
  cases asked : world.dns.pendingCallback with
  | none => exact ended _ rfl
  | some key =>
      exact (ended _ rfl).httpOnDns _ _ rfl fun active =>
        ⟨(tracks.resolver active waiting).1 key asked, (tracks.resolver active waiting).2.2⟩

theorem handleDnsResponse (tracks : Tracks world) (sourcePort : BitVec 16) (sourceIp : Ipv4)
    (payload : List UInt8) :
    Tracks (handleDnsResponse httpCallbacks sourcePort sourceIp payload world) := by
  simp only [Net.handleDnsResponse]
  split
  · exact tracks
  · next passed =>
      rw [not_or] at passed
      exact tracks.finishQuery (by simpa using passed.1) _

/-- The resolver may change all but its state and its callback. -/
theorem withDns (tracks : Tracks world) {stack : Stack} {dns : Dns Nat}
    (active : dns.active = world.dns.active)
    (callback : dns.pendingCallback = world.dns.pendingCallback) :
    Tracks { world with stack, dns } where
  owners := tracks.owners
  resolver := fun requested waiting => by
    simp only [callback]
    exact tracks.resolver requested (active ▸ waiting)
  client := tracks.client
  paired := tracks.paired
  idle := tracks.idle
  ready := tracks.ready
  linked := tracks.linked
  unclosed := tracks.unclosed
  bounded := tracks.bounded
  caused := tracks.caused
  agrees := tracks.agrees

theorem netDnsPoll (tracks : Tracks world) : Tracks (netDnsPoll httpCallbacks world) := by
  simp only [Net.netDnsPoll]
  split
  · exact tracks
  next waiting =>
  split
  · exact tracks.withDns rfl rfl
  split
  · have reset : Tracks { world with dns := { world.dns with pollTicks := 0 } } :=
      tracks.withDns rfl rfl
    exact reset.finishQuery (by simpa using waiting) none
  · exact tracks.withDns rfl rfl

theorem netDnsInit (tracks : Tracks world) : Tracks (netDnsInit world).2 := by
  simp only [Net.netDnsInit]
  split
  · exact tracks
  split
  · exact tracks
  split
  · exact tracks.withDns rfl rfl
  split <;> exact tracks.withDns rfl rfl

/-- The user may change as long as no request is active. -/
theorem inactive (tracks : Tracks world) {http : Http} (ended : http.active = false)
    (reports : http.reports = world.user.reports) : Tracks { world with user := http } where
  owners := fun active => by simp [ended] at active
  resolver := fun active => by simp [ended] at active
  client := fun active => by simp [ended] at active
  paired := tracks.paired
  idle := tracks.idle
  ready := tracks.ready
  linked := fun active => by simp [ended] at active
  unclosed := tracks.unclosed
  bounded := by
    simp only [reports]
    exact tracks.bounded
  caused := by
    simp only [reports]
    exact tracks.caused
  agrees := by
    simp only [reports]
    exact tracks.agrees

theorem netDnsQuery_cases (world : World Nat Http) (hostname : List UInt8) (key : Nat) :
    netDnsQuery world hostname key = (false, world) ∨
      ∃ dns : Dns Nat, netDnsQuery world hostname key = (true, { world with dns }) ∧
        dns.pendingCallback = some key := by
  simp only [netDnsQuery]
  split
  · exact .inl rfl
  split
  · exact .inl rfl
  · exact .inr ⟨_, rfl, rfl⟩

/-- A request that starts its lookup while no connection is alive. -/
theorem started (tracks : Tracks world) (closed : world.tcp.state = .closed) {http : Http}
    {dns : Dns Nat} (owners : ∀ owner, http.HasCallback owner → owner = http.number)
    (asked : dns.pendingCallback = some http.number) (response : http.response = [])
    (reports : http.reports = world.user.reports) :
    Tracks { world with dns, user := http } where
  owners := fun _ => owners
  resolver := fun _ _ => by
    refine ⟨fun key found => ?_, closed, response⟩
    exact Option.some.inj (found.symm.trans asked)
  client := fun _ key has => (tracks.idle closed key has).elim
  paired := tracks.paired
  idle := tracks.idle
  ready := tracks.ready
  linked := fun _ listening => by
    obtain ⟨key, listening⟩ := Option.isSome_iff_exists.mp listening
    exact (tracks.idle closed key (.inr (.inl listening))).elim
  unclosed := tracks.unclosed
  bounded := by
    simp only [reports]
    exact tracks.bounded
  caused := by
    simp only [reports]
    exact tracks.caused
  agrees := by
    simp only [reports]
    exact tracks.agrees

theorem netHttpGet (tracks : Tracks world) (request : HttpRequest)
    (alone : (netHttpGet request world).1 = true → world.tcp.state = .closed) :
    Tracks (netHttpGet request world).2 := by
  simp only [Net.netHttpGet] at alone ⊢
  split
  · exact tracks
  next valid =>
  rw [if_neg valid] at alone
  generalize asking : ({ world with user := _ } : World Nat Http) = now at alone ⊢
  rcases netDnsQuery_cases now request.hostname (world.user.number + 1) with
    refused | ⟨dns, asked, callback⟩
  · rw [refused]
    subst asking
    exact tracks.inactive rfl rfl
  · rw [asked] at alone ⊢
    subst asking
    refine tracks.started (alone rfl) ?_ callback rfl rfl
    rintro owner (own | own | own)
    · exact (Option.some.inj ((Option.ite_none_right_eq_some.mp own).2)).symm
    · exact (Option.some.inj ((Option.ite_none_right_eq_some.mp own).2)).symm
    · exact (Option.some.inj own).symm

theorem netHttpCancel (tracks : Tracks world) : Tracks (netHttpCancel world) :=
  tracks.finishRequest true (fun _ _ none => by cases none) (fun success => by cases success)

end Tracks

/-! ## Runs -/

/-- A request is only accepted while no connection is alive. -/
def HttpEvent.Alone (world : World Nat Http) : HttpEvent → Prop
  | .get request => (netHttpGet request world).1 = true → world.tcp.state = .closed
  | _ => True

/-- The clients before any call, over any stack. -/
structure Fresh (world : World Nat Http) : Prop where
  tcp : world.tcp = .initial
  dns : world.dns = .initial
  user : world.user = .initial

theorem Fresh.tracks {world : World Nat Http} (fresh : Fresh world) : Tracks world := by
  obtain ⟨stack, tcp, dns, user⟩ := world
  obtain ⟨rfl, rfl, rfl⟩ := fresh
  exact {
    owners := fun active => by cases active
    resolver := fun active => by cases active
    client := fun active => by cases active
    paired := rfl
    idle := fun _ key has => by simp [Tcp.HasCallback, Tcp.initial] at has
    ready := fun _ => rfl
    linked := fun active => by cases active
    unclosed := fun _ => rfl
    bounded := fun _ member => by cases member
    caused := fun _ member => by cases member
    agrees := {
      past := fun _ _ found => by simp [Tcp.initial] at found
      current := fun _ member => by cases member } }

theorem httpAfter_tracks {world : World Nat Http} (tracks : Tracks world) {event : HttpEvent}
    (alone : event.Alone world) : Tracks (httpAfter world event) := by
  cases event with
  | dnsInit => exact tracks.netDnsInit
  | tcpInit => exact tracks.netTcpInit
  | get request => exact tracks.netHttpGet request alone
  | cancel => exact tracks.netHttpCancel
  | dnsInput sourcePort sourceIp payload =>
      exact tracks.handleDnsResponse sourcePort sourceIp payload
  | dnsPoll => exact tracks.netDnsPoll
  | tcpInput src dst bytes => exact tracks.netTcpInput src dst bytes
  | tcpPoll => exact tracks.netTcpPoll
  | other stack => exact tracks.withDns rfl rfl

theorem run_tracks {condition : World Nat Http → HttpEvent → Prop}
    (alone : ∀ world event, condition world event → event.Alone world)
    {start finish : World Nat Http} {events : List HttpEvent} (fresh : Fresh start)
    (run : Run (Restrict HttpStep condition) start events finish) : Tracks finish := by
  refine @Run.invariant _ _ _ _ _ _ Tracks (fun _ => True) ?_ run fresh.tracks
    (fun _ _ => trivial)
  rintro world event world' tracks - ⟨holds, rfl⟩
  exact httpAfter_tracks tracks (alone world event holds)

/-- If no request is accepted while a connection is alive, the callbacks of a request are
called for its own lookup and its own connection only, and those that are still to be
called belong to the active request. -/
theorem http_request_own_connection {start finish : World Nat Http} {events : List HttpEvent}
    (fresh : Fresh start)
    (run : Run (Restrict HttpStep fun world event => event.Alone world) start events finish) :
    (∀ report ∈ finish.user.reports, ∀ key, report.cause = some key → key = report.owner) ∧
      (finish.user.active = true →
        (∀ key, finish.tcp.HasCallback key → key = finish.user.number) ∧
          (finish.dns.active = true → ∀ key, finish.dns.pendingCallback = some key →
            key = finish.user.number)) := by
  have tracks := run_tracks (fun _ _ alone => alone) fresh run
  exact ⟨tracks.caused, fun active => ⟨tracks.client active, fun waiting =>
    (tracks.resolver active waiting).1⟩⟩

/-- The clients of a machine with the address 10.0.2.15 before any call. -/
def httpWorld : World Nat Http := ⟨neighbourWorld.stack, .initial, .initial, .initial⟩

/-- A request for the start page of a host with a name of one letter. -/
def pageRequest (letter : UInt8) : HttpRequest := ⟨[letter], ascii "/", true, true, true⟩

/-- The answer of the resolver's default server to the first query, for a name of one
letter: the host is 10.0.2.2. -/
def pageAnswer (letter : UInt8) : HttpEvent :=
  .dnsInput 53 0x01010101
    (be16 0x4D31 ++ be16 0x8180 ++ be16 1 ++ be16 1 ++ be16 0 ++ be16 0 ++
      [1, letter, 0] ++ be16 1 ++ be16 1 ++
      be16 0xC00C ++ be16 1 ++ be16 1 ++ be32 0 ++ be16 4 ++ be32 0x0A000202)

/-- A segment from 10.0.2.2 to the first connection. -/
def pageSegment (flags : BitVec 8) (sequence : BitVec 32) (payload : List UInt8) : HttpEvent :=
  .tcpInput 0x0A000202 0x0A00020F (tcpSegment 0x0A000202 0x0A00020F 80 49152 flags sequence
    (initialSequence 49152 80 + 1) payload)

/-- A request up to the end of the handshake of its connection. -/
def requestEvents : List HttpEvent :=
  [.dnsInit, .get (pageRequest 0x61), pageAnswer 0x61, .tcpPoll, pageSegment 0x12 1000 []]

/-- The headers of a response without `Content-Length`. -/
def pageHeaders : List UInt8 := ascii "HTTP/1.0 200 OK\r\nA: b\r\n\r\n"

/-- The general statement for a request whose connection is open. -/
theorem http_request_own_connection_opened :
    (requestEvents.foldl httpAfter httpWorld).tcp.state = .established ∧
    (requestEvents.foldl httpAfter httpWorld).user.active = true ∧
    (∀ key, (requestEvents.foldl httpAfter httpWorld).tcp.HasCallback key →
      key = (requestEvents.foldl httpAfter httpWorld).user.number) := by
  have opened : (requestEvents.foldl httpAfter httpWorld).tcp.state = .established ∧
      (requestEvents.foldl httpAfter httpWorld).user.active = true := by
    decide +kernel
  have closed : (httpAfter httpWorld .dnsInit).tcp.state = .closed := by decide +kernel
  have run : Run (Restrict HttpStep fun world event => event.Alone world) httpWorld
      requestEvents (requestEvents.foldl httpAfter httpWorld) :=
    Run.of_along ⟨trivial, fun _ => closed, trivial, trivial, trivial, trivial⟩
  generalize requestEvents.foldl httpAfter httpWorld = finish at opened run ⊢
  exact ⟨opened.1, opened.2,
    ((http_request_own_connection ⟨rfl, rfl, rfl⟩ run).2 opened.2).1⟩

theorem run_http (start : World Nat Http) (events : List HttpEvent) :
    Run HttpStep start events (events.foldl httpAfter start) := by
  induction events using List.reverseRecOn with
  | nil => exact .start
  | append_singleton events event ih =>
      rw [List.foldl_append]
      exact ih.next rfl

/-- After the first request was cancelled and a second one has started, the response to
the first one is taken for the response to the second. -/
theorem http_response_of_cancelled_request :
    ∃ finish, Run HttpStep httpWorld
        (requestEvents ++ [.cancel, .get (pageRequest 0x62), pageSegment 0x18 1001 pageHeaders])
        finish ∧
      ∃ report ∈ finish.user.reports, report.owner = 2 ∧ report.cause = some 1 ∧
        report.call = .headers 200 false 0 := by
  refine ⟨_, run_http _ _, ?_⟩
  decide +kernel

end Charis.Net
