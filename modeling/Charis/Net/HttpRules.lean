import Charis.Net.HttpSegments

/-!
# Rules for the HTTP client

Whatever happens in the network code reaches the data of the HTTP client through six
entry points: the two functions of its user and the four callbacks it has registered.  A
property of that data that the six keep holds along every run, also along those in which
the rest of the network code does anything at all in between.
-/

namespace Charis.Net

open Charis.Lib

/-- The entry points of the HTTP client, in any order and with any arguments, and any
change of the rest of the network code. -/
inductive ClientEvent where
  | get (request : HttpRequest)
  | cancel
  | dns (key : Nat) (ip : Ipv4) (success : Bool)
  | connect (key : Nat) (connected : Bool)
  | data (key : Nat) (bytes : List UInt8)
  | closed (key : Nat) (clean : Bool)
  | other (stack : Stack) (tcp : Tcp Nat) (dns : Dns Nat)

/-- The effect of an entry point. -/
def clientAfter (world : World Nat Http) : ClientEvent → World Nat Http
  | .get request => (netHttpGet request world).2
  | .cancel => netHttpCancel world
  | .dns key ip success => httpOnDns key ip success world
  | .connect key connected => httpOnConnect key connected world
  | .data key bytes => httpOnData key bytes world
  | .closed key clean => httpOnClosed key clean world
  | .other stack tcp dns => { world with stack, tcp, dns }

def ClientStep (world : World Nat Http) (event : ClientEvent) (world' : World Nat Http) : Prop :=
  world' = clientAfter world event

theorem run_client (start : World Nat Http) (events : List ClientEvent) :
    Run ClientStep start events (events.foldl clientAfter start) := by
  induction events using List.reverseRecOn with
  | nil => exact .start
  | append_singleton events event ih =>
      rw [List.foldl_append]
      exact ih.next rfl

/-- The data of a request that has ended, before its last call. -/
def Http.ended (http : Http) : Http :=
  { http with
    active := false
    completeCallback := none
    headersCallback := none
    bodyCallback := none }

theorem finishRequest_user (cause : Option Nat) (success closeTcp : Bool)
    {world : World Nat Http} (active : world.user.active = true) :
    ∃ connection, (finishRequest cause success closeTcp world).user =
      world.user.ended.report world.user.completeCallback cause connection
        (.complete success) := by
  simp only [finishRequest, active, Bool.not_true, Bool.false_eq_true, ↓reduceIte]
  cases closeTcp with
  | false => exact ⟨_, rfl⟩
  | true =>
      simp only [↓reduceIte, Tracks.netTcpClose_user]
      exact ⟨_, rfl⟩

theorem finishRequest_of_inactive (cause : Option Nat) (success closeTcp : Bool)
    {world : World Nat Http} (inactive : world.user.active = false) :
    finishRequest cause success closeTcp world = world := by
  simp [finishRequest, inactive]

theorem netTcpConnect_user (world : World Nat Http) (ip : Ipv4) (port : BitVec 16) (key : Nat)
    (onData onClose : Option Nat) :
    (netTcpConnect world ip port key onData onClose).2.user = world.user := by
  have ready : (netTcpInit world).user = world.user := by
    simp only [netTcpInit]
    split <;> rfl
  simp only [netTcpConnect]
  split
  · exact ready
  split
  · exact ready
  · exact ready

/-- A property of the client's data that every entry point keeps. -/
def ClientKeeps (inv : Http → Prop) : Prop :=
  ∀ world event, inv world.user → inv (clientAfter world event).user

namespace ClientKeeps

variable {inv : Http → Prop} (keeps : ClientKeeps inv)

include keeps

/-- It holds at the end of every run of the client. -/
theorem run {start finish : World Nat Http} {events : List ClientEvent}
    (run : Run ClientStep start events finish) (holds : inv start.user) : inv finish.user := by
  refine @Run.invariant _ _ _ _ _ _ (fun world => inv world.user) (fun _ => True) ?_ run holds
    (fun _ _ => trivial)
  rintro world event world' holds - rfl
  exact keeps world event holds

theorem stable : Stable httpCallbacks fun world => inv world.user where
  connect := fun key connected world => keeps world (.connect key connected)
  data := fun key bytes world => keeps world (.data key bytes)
  close := fun key clean world => keeps world (.closed key clean)
  clear := fun _ holds => holds
  abort := fun _ holds => holds
  acknowledge := fun world holds => by
    rw [emitAck, (emitSegment_rest ..).2]
    exact holds

variable {world : World Nat Http} (holds : inv world.user)

include holds

omit keeps in
theorem countPayload (payload : List UInt8) : inv (Net.countPayload world payload).user := by
  simp only [Net.countPayload]
  split <;> exact holds

omit keeps in
theorem acknowledgePayload (segment : Segment) :
    inv (Net.acknowledgePayload world segment).user := by
  simp only [Net.acknowledgePayload]
  split <;> exact holds

theorem netTcpInput (src dst : Ipv4) (bytes : List UInt8) :
    inv (netTcpInput httpCallbacks world src dst bytes).user := by
  refine keeps.stable.netTcpInput holds src dst bytes fun segment _ _ => ?_
  exact {
    opened := fun _ => by
      rw [Tracks.openConnection_user]
      exact holds
    first := fun _ _ now before _ => countPayload before _
    acknowledged := fun _ => acknowledgePayload holds segment
    counted := fun _ _ _ => countPayload (acknowledgePayload holds segment) _
    finished := fun _ _ before => keeps.stable.inputFin fun count => by
      change inv (emitAck (advanceRemote _ count)).user
      rw [emitAck, (emitSegment_rest ..).2]
      exact before }

theorem netTcpPoll : inv (netTcpPoll httpCallbacks world).user := by
  refine keeps.stable.netTcpPoll holds (fun _ _ _ before => before) fun _ pollTicks before => ?_
  refine @pollTransmit_keeps _ _ (fun now => inv now.user) _ before (fun _ => ?_) (fun _ _ => ?_)
    fun _ _ => ?_
  · rw [(Tracks.pollSyn_rest _).2]
    exact before
  · rw [(Tracks.pollPayload_rest _).2]
    exact before
  · rw [(emitSegment_rest ..).2]
    exact before

theorem finishQuery (address : Option Ipv4) :
    inv (finishQuery httpCallbacks world address).user := by
  simp only [Net.finishQuery]
  cases world.dns.pendingCallback with
  | none => exact holds
  | some key => exact keeps _ (.dns key (address.getD 0) address.isSome) holds

omit keeps in
theorem netDnsInit : inv (netDnsInit world).2.user := by
  simp only [Net.netDnsInit]
  split
  · exact holds
  split
  · exact holds
  split
  · exact holds
  split <;> exact holds

theorem netDnsPoll : inv (netDnsPoll httpCallbacks world).user := by
  simp only [Net.netDnsPoll]
  split
  · exact holds
  split
  · exact holds
  split
  · exact @finishQuery inv keeps { world with dns := { world.dns with pollTicks := 0 } } holds none
  · exact holds

/-- It is kept by everything that happens in the network code. -/
theorem httpAfter (event : HttpEvent) : inv (httpAfter world event).user := by
  cases event with
  | dnsInit => exact netDnsInit holds
  | tcpInit =>
      simp only [Net.httpAfter, netTcpInit]
      split <;> exact holds
  | get request => exact keeps world (.get request) holds
  | cancel => exact keeps world .cancel holds
  | dnsInput sourcePort sourceIp payload =>
      simp only [Net.httpAfter, handleDnsResponse]
      split
      · exact holds
      · exact keeps.finishQuery holds _
  | dnsPoll => exact keeps.netDnsPoll holds
  | tcpInput src dst bytes => exact keeps.netTcpInput holds src dst bytes
  | tcpPoll => exact keeps.netTcpPoll holds
  | other stack => exact holds

omit holds in
/-- It holds at the end of every run of the network code. -/
theorem runHttp {start finish : World Nat Http} {events : List HttpEvent}
    (run : Run HttpStep start events finish) (holds : inv start.user) : inv finish.user := by
  refine @Run.invariant _ _ _ _ _ _ (fun world => inv world.user) (fun _ => True) ?_ run holds
    (fun _ _ => trivial)
  rintro world event world' holds - rfl
  exact keeps.httpAfter holds event

end ClientKeeps

end Charis.Net
