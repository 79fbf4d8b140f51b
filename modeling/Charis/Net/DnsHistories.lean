import Charis.Net.Dns

/-!
# Histories of lookups

A lookup that ends is no longer active when its callback is entered, and nothing is done
after the callback.  So a callback can start the next lookup, and a history is a sequence
of calls, those in callbacks among them.
-/

namespace Charis.Net

open Relation

variable {κ τ : Type}

/-- A query that was accepted: its number in messages, the host name, and the callback. -/
structure DnsAccepted (κ : Type) where
  id : BitVec 16
  host : List UInt8
  key : κ

/-- The call of a callback. -/
structure DnsCall (κ : Type) where
  key : κ
  host : List UInt8
  address : Ipv4
  success : Bool

/-- What the user of the resolver notes, beside a state of its own. -/
structure DnsJournal (κ τ : Type) where
  accepted : List (DnsAccepted κ)
  calls : List (DnsCall κ)
  state : τ

/-- A call of `net_dns_query`, noted if it is accepted. -/
def askQuery (world : World κ (DnsJournal κ τ)) (host : List UInt8) (key : κ) :
    World κ (DnsJournal κ τ) :=
  match netDnsQuery world host key with
  | (false, after) => after
  | (true, after) =>
      { after with
        user := { after.user with
          accepted := after.user.accepted ++ [⟨after.dns.pendingId, host, key⟩] } }

/-- A callback is entered. -/
def noteCall (world : World κ (DnsJournal κ τ)) (call : DnsCall κ) :
    World κ (DnsJournal κ τ) :=
  { world with user := { world.user with calls := world.user.calls ++ [call] } }

/-- Callbacks that note their call and return. -/
def noteCallbacks : Callbacks κ (DnsJournal κ τ) where
  dnsAnswer := fun key host address success world => noteCall world ⟨key, host, address, success⟩
  tcpConnect := fun _ _ world => world
  tcpData := fun _ _ world => world
  tcpClose := fun _ _ world => world
  udp := fun _ _ _ _ world => world

/-- A sequence of calls of the resolver, by anyone.  The state in which a callback is
entered is the one after a call whose callbacks return at once. -/
inductive DnsActs (world : World κ (DnsJournal κ τ)) : World κ (DnsJournal κ τ) → Prop
  | refl : DnsActs world world
  | init {middle : World κ (DnsJournal κ τ)} :
      DnsActs world middle → DnsActs world (netDnsInit middle).2
  | query {middle : World κ (DnsJournal κ τ)} (host : List UInt8) (key : κ) :
      DnsActs world middle → DnsActs world (askQuery middle host key)
  | poll {middle : World κ (DnsJournal κ τ)} :
      DnsActs world middle → DnsActs world (netDnsPoll noteCallbacks middle)
  | response {middle : World κ (DnsJournal κ τ)} (port : BitVec 16) (ip : Ipv4)
      (payload : List UInt8) :
      DnsActs world middle →
      DnsActs world (handleDnsResponse noteCallbacks port ip payload middle)
  | other {middle after : World κ (DnsJournal κ τ)} :
      DnsActs world middle → after.dns = middle.dns →
      after.user.accepted = middle.user.accepted → after.user.calls = middle.user.calls →
      DnsActs world after

theorem DnsActs.trans {first second third : World κ (DnsJournal κ τ)}
    (early : DnsActs first second) (late : DnsActs second third) : DnsActs first third := by
  induction late with
  | refl => exact early
  | init _ ih => exact ih.init
  | query host key _ ih => exact ih.query host key
  | poll _ ih => exact ih.poll
  | response port ip payload _ ih => exact ih.response port ip payload
  | other _ dns accepted calls ih => exact ih.other dns accepted calls

/-- A callback is noted, and then calls the resolver as it likes. -/
def Callbacks.GoOn (callbacks : Callbacks κ (DnsJournal κ τ)) : Prop :=
  ∀ key host address success world,
    DnsActs (noteCall world ⟨key, host, address, success⟩)
      (callbacks.dnsAnswer key host address success world)

/-- A call of the resolver from outside of callbacks. -/
inductive DnsStep (callbacks : Callbacks κ (DnsJournal κ τ))
    (world : World κ (DnsJournal κ τ)) : World κ (DnsJournal κ τ) → Prop
  | init : DnsStep callbacks world (netDnsInit world).2
  | query (host : List UInt8) (key : κ) : DnsStep callbacks world (askQuery world host key)
  | poll : DnsStep callbacks world (netDnsPoll callbacks world)
  | response (port : BitVec 16) (ip : Ipv4) (payload : List UInt8) :
      DnsStep callbacks world (handleDnsResponse callbacks port ip payload world)
  | other {after : World κ (DnsJournal κ τ)} : after.dns = world.dns →
      after.user.accepted = world.user.accepted → after.user.calls = world.user.calls →
      DnsStep callbacks world after

section GoOn

variable {callbacks : Callbacks κ (DnsJournal κ τ)} {world start : World κ (DnsJournal κ τ)}

/-- What a callback does comes after the state in which it is entered. -/
theorem finishQuery_acts (goOn : callbacks.GoOn) (address : Option Ipv4) :
    DnsActs (finishQuery noteCallbacks world address) (finishQuery callbacks world address) := by
  simp only [finishQuery]
  cases world.dns.pendingCallback with
  | none => exact .refl
  | some key => exact goOn _ _ _ _ _

theorem netDnsPoll_acts (goOn : callbacks.GoOn) (world : World κ (DnsJournal κ τ)) :
    DnsActs world (netDnsPoll callbacks world) := by
  have called : DnsActs world (netDnsPoll noteCallbacks world) := .poll .refl
  apply called.trans
  unfold netDnsPoll
  split
  · exact .refl
  split
  · exact .refl
  dsimp only
  split
  · exact finishQuery_acts goOn none
  · exact .refl

theorem handleDnsResponse_acts (goOn : callbacks.GoOn) (port : BitVec 16) (ip : Ipv4)
    (payload : List UInt8) (world : World κ (DnsJournal κ τ)) :
    DnsActs world (handleDnsResponse callbacks port ip payload world) := by
  have called : DnsActs world (handleDnsResponse noteCallbacks port ip payload world) :=
    .response port ip payload .refl
  apply called.trans
  unfold handleDnsResponse
  split
  · exact .refl
  · exact finishQuery_acts goOn _

/-- Whatever callbacks do, a run is a sequence of calls. -/
theorem acts_of_run (goOn : callbacks.GoOn) (run : ReflTransGen (DnsStep callbacks) start world) :
    DnsActs start world := by
  induction run with
  | refl => exact .refl
  | @tail middle after _ step ih =>
  cases step with
  | init => exact ih.init
  | query host key => exact ih.query host key
  | poll => exact ih.trans (netDnsPoll_acts goOn middle)
  | response port ip payload =>
      exact ih.trans (handleDnsResponse_acts goOn port ip payload middle)
  | other dns accepted calls => exact ih.other dns accepted calls

end GoOn

/-- The number of the query that is accepted after some others. -/
def dnsId (before : Nat) : BitVec 16 := BitVec.ofNat 16 ((0x4D30 + before) % 65535 + 1)

theorem toNat_dnsId (before : Nat) :
    (dnsId before).toNat = (0x4D30 + before) % 65535 + 1 := by
  rw [dnsId, BitVec.toNat_ofNat]
  omega

theorem dnsId_next (before : Nat) :
    (if dnsId before + 1 = 0 then 1 else dnsId before + 1) = dnsId (before + 1) := by
  have value := toNat_dnsId before
  have after := toNat_dnsId (before + 1)
  split
  · next wraps =>
    have zero := congrArg BitVec.toNat wraps
    rw [BitVec.toNat_add, value] at zero
    simp only [BitVec.toNat_ofNat, BitVec.ofNat_eq_ofNat] at zero
    apply BitVec.eq_of_toNat_eq
    rw [after]
    simp only [BitVec.toNat_ofNat, BitVec.ofNat_eq_ofNat]
    omega
  next counts =>
  have nonzero : (dnsId before + 1).toNat ≠ 0 := fun zero =>
    counts (BitVec.eq_of_toNat_eq zero)
  rw [BitVec.toNat_add, value] at nonzero
  simp only [BitVec.toNat_ofNat, BitVec.ofNat_eq_ofNat] at nonzero
  apply BitVec.eq_of_toNat_eq
  rw [after, BitVec.toNat_add, value]
  simp only [BitVec.toNat_ofNat, BitVec.ofNat_eq_ofNat]
  omega

/-- Numbers come back after 65535 queries, and not before. -/
theorem dnsId_ne {earlier later : Nat} (before : earlier < later)
    (near : later - earlier - 1 < 65534) : dnsId earlier ≠ dnsId later := by
  intro same
  have value := congrArg BitVec.toNat same
  rw [toNat_dnsId, toNat_dnsId] at value
  omega

/-- The callback and the host of a query. -/
def DnsAccepted.pair (query : DnsAccepted κ) : κ × List UInt8 := (query.key, query.host)

/-- The callback that is called and the host that it is given. -/
def DnsCall.pair (call : DnsCall κ) : κ × List UInt8 := (call.key, call.host)

/-- All accepted queries but the active one have been answered in their order, and the
static data are those of the last one. -/
structure DnsTracks (world : World κ (DnsJournal κ τ)) : Prop where
  waiting : world.dns.active = true → ∃ key, world.dns.pendingCallback = some key ∧
    world.user.accepted.map DnsAccepted.pair =
      world.user.calls.map DnsCall.pair ++ [(key, world.dns.pendingHost)]
  idle : world.dns.active = false → world.dns.pendingCallback = none ∧
    world.user.accepted.map DnsAccepted.pair = world.user.calls.map DnsCall.pair
  last : ∀ query ∈ world.user.accepted.getLast?,
    world.dns.pendingHost = query.host ∧ world.dns.pendingId = query.id
  ids : ∀ index query, world.user.accepted[index]? = some query → query.id = dnsId index
  next : world.dns.nextId = dnsId world.user.accepted.length

namespace DnsTracks

variable {world : World κ (DnsJournal κ τ)}

/-- Before any call. -/
theorem initial (dns : world.dns = .initial) (accepted : world.user.accepted = [])
    (calls : world.user.calls = []) : DnsTracks world := by
  constructor
  · intro active
    rw [dns] at active
    cases active
  · intro _
    rw [dns, accepted, calls]
    exact ⟨rfl, rfl⟩
  · intro query member
    rw [accepted] at member
    cases member
  · intro index query found
    rw [accepted] at found
    cases found
  · rw [dns, accepted]
    rfl

/-- The other data of the resolver do not matter. -/
theorem of_same (tracks : DnsTracks world) {after : World κ (DnsJournal κ τ)}
    (active : after.dns.active = world.dns.active)
    (callback : after.dns.pendingCallback = world.dns.pendingCallback)
    (host : after.dns.pendingHost = world.dns.pendingHost)
    (id : after.dns.pendingId = world.dns.pendingId)
    (next : after.dns.nextId = world.dns.nextId)
    (accepted : after.user.accepted = world.user.accepted)
    (calls : after.user.calls = world.user.calls) : DnsTracks after := by
  constructor
  · rw [active, callback, host, accepted, calls]
    exact tracks.waiting
  · rw [active, callback, accepted, calls]
    exact tracks.idle
  · rw [host, id, accepted]
    exact tracks.last
  · rw [accepted]
    exact tracks.ids
  · rw [next, accepted]
    exact tracks.next

theorem init (tracks : DnsTracks world) : DnsTracks (netDnsInit world).2 := by
  unfold netDnsInit
  split
  · exact tracks
  split
  · exact tracks
  dsimp only
  split
  · exact tracks.of_same rfl rfl rfl rfl rfl rfl rfl
  split
  · exact tracks.of_same rfl rfl rfl rfl rfl rfl rfl
  · exact tracks.of_same rfl rfl rfl rfl rfl rfl rfl

/-- A query is accepted only when no other one is active. -/
theorem query (tracks : DnsTracks world) (host : List UInt8) (key : κ) :
    DnsTracks (askQuery world host key) := by
  unfold askQuery netDnsQuery
  split
  · next after refused =>
    split at refused
    · cases refused
      exact tracks
    split at refused
    · cases refused
      exact tracks
    · cases refused
  next after accepted =>
  split at accepted
  · cases accepted
  next free =>
  split at accepted
  · cases accepted
  rw [Prod.mk.injEq] at accepted
  obtain ⟨-, rfl⟩ := accepted
  have inactive : world.dns.active = false := by
    rw [not_or, Bool.not_eq_true world.dns.active] at free
    exact free.2
  obtain ⟨-, answered⟩ := tracks.idle inactive
  constructor
  · intro _
    refine ⟨key, rfl, ?_⟩
    rw [List.map_append, answered]
    rfl
  · intro impossible
    cases impossible
  · intro query member
    rw [List.getLast?_concat, Option.mem_some_iff] at member
    rw [← member]
    exact ⟨rfl, rfl⟩
  · intro index query found
    rcases Nat.lt_or_ge index world.user.accepted.length with old | new
    · rw [List.getElem?_append_left old] at found
      exact tracks.ids index query found
    · rw [List.getElem?_append_right new] at found
      have here : index = world.user.accepted.length := by
        have inside := (List.getElem?_eq_some_iff.mp found).1
        rw [List.length_singleton] at inside
        omega
      rw [here, Nat.sub_self, List.getElem?_cons_zero, Option.some.injEq] at found
      rw [← found, here, ← tracks.next]
  · rw [List.length_append, List.length_singleton, ← dnsId_next, ← tracks.next]

/-- A query that ends is answered. -/
theorem finish (tracks : DnsTracks world) (active : world.dns.active = true)
    (address : Option Ipv4) : DnsTracks (finishQuery noteCallbacks world address) := by
  obtain ⟨key, callback, answered⟩ := tracks.waiting active
  unfold finishQuery
  simp only [callback, callIf, noteCallbacks, noteCall]
  constructor
  · intro impossible
    cases impossible
  · intro _
    refine ⟨rfl, ?_⟩
    rw [answered, List.map_append]
    rfl
  · exact tracks.last
  · exact tracks.ids
  · exact tracks.next

theorem poll (tracks : DnsTracks world) : DnsTracks (netDnsPoll noteCallbacks world) := by
  unfold netDnsPoll
  split
  · exact tracks
  next active =>
  split
  · exact tracks.of_same rfl rfl rfl rfl rfl rfl rfl
  dsimp only
  have counted : DnsTracks { world with dns := { world.dns with pollTicks := 0 } } :=
    tracks.of_same rfl rfl rfl rfl rfl rfl rfl
  split
  · apply counted.finish
    simpa using active
  · exact tracks.of_same rfl rfl rfl rfl rfl rfl rfl

theorem response (tracks : DnsTracks world) (port : BitVec 16) (ip : Ipv4)
    (payload : List UInt8) :
    DnsTracks (handleDnsResponse noteCallbacks port ip payload world) := by
  unfold handleDnsResponse
  split
  · exact tracks
  · next taken =>
    apply tracks.finish
    rw [not_or] at taken
    simpa using taken.1

end DnsTracks

theorem tracks_of_acts {start world : World κ (DnsJournal κ τ)} (tracks : DnsTracks start)
    (acts : DnsActs start world) : DnsTracks world := by
  induction acts with
  | refl => exact tracks
  | init _ ih => exact ih.init
  | query host key _ ih => exact ih.query host key
  | poll _ ih => exact ih.poll
  | response port ip payload _ ih => exact ih.response port ip payload
  | other _ dns accepted calls ih =>
  apply ih.of_same
  · rw [dns]
  · rw [dns]
  · rw [dns]
  · rw [dns]
  · rw [dns]
  · exact accepted
  · exact calls

/-- The n-th call of a callback is that of the n-th accepted query, and it is given the host
of this query, which stays in place until the next query is accepted.  The number of an
earlier query does not answer the last one. -/
structure DnsAnswersOwn (world : World κ (DnsJournal κ τ)) : Prop where
  once : world.user.calls.map DnsCall.pair <+: world.user.accepted.map DnsAccepted.pair
  host : ∀ query ∈ world.user.accepted.getLast?, world.dns.pendingHost = query.host
  fresh : ∀ earlier query, world.user.accepted[earlier]? = some query →
    earlier + 1 < world.user.accepted.length →
    world.user.accepted.length - 1 - earlier - 1 < 65534 →
    ∀ (callbacks : Callbacks κ (DnsJournal κ τ)) port ip payload,
      readBe16 payload 0 = query.id →
      handleDnsResponse callbacks port ip payload world = world

theorem DnsTracks.answersOwn {world : World κ (DnsJournal κ τ)} (tracks : DnsTracks world) :
    DnsAnswersOwn world := by
  constructor
  · cases active : world.dns.active with
    | false => rw [(tracks.idle active).2]
    | true =>
        obtain ⟨key, -, answered⟩ := tracks.waiting active
        exact ⟨_, answered.symm⟩
  · intro query member
    exact (tracks.last query member).1
  intro earlier query found before near callbacks port ip payload carries
  have filled : world.user.accepted ≠ [] := by
    intro empty
    rw [empty] at before
    cases before
  have last : world.user.accepted[world.user.accepted.length - 1]? =
      some (world.user.accepted.getLast filled) := by
    rw [← List.getLast?_eq_getElem?, List.getLast?_eq_getLast_of_ne_nil filled]
  have current := (tracks.last _ (List.getLast?_eq_getLast_of_ne_nil filled)).2
  rw [tracks.ids _ _ last] at current
  have different : dnsId earlier ≠ dnsId (world.user.accepted.length - 1) :=
    dnsId_ne (by omega) near
  rw [handleDnsResponse, if_pos]
  refine .inr (.inr (.inr (.inr ?_)))
  rw [carries, current, tracks.ids earlier query found]
  exact different

/-- In every history of lookups, those of callbacks among them, each accepted query is
answered at most once and with its own host, and late responses are not taken. -/
theorem dns_queries_answered_once {start : World κ (DnsJournal κ τ)}
    (dns : start.dns = .initial) (accepted : start.user.accepted = [])
    (calls : start.user.calls = []) :
    (∀ world, DnsActs start world → DnsAnswersOwn world) ∧
      ∀ callbacks : Callbacks κ (DnsJournal κ τ), callbacks.GoOn →
        ∀ world, ReflTransGen (DnsStep callbacks) start world → DnsAnswersOwn world := by
  have tracks := DnsTracks.initial dns accepted calls
  constructor
  · intro world acts
    exact (tracks_of_acts tracks acts).answersOwn
  · intro callbacks goOn world run
    exact (tracks_of_acts tracks (acts_of_run goOn run)).answersOwn

/-- A user that asks for another host whenever an answer comes. -/
def curiousCallbacks : Callbacks Unit (DnsJournal Unit Unit) :=
  { noteCallbacks with
    dnsAnswer := fun key host address success world =>
      askQuery (noteCall world ⟨key, host, address, success⟩) (ascii "b") () }

theorem curiousCallbacks_goOn : curiousCallbacks.GoOn := by
  intro key host address success world
  exact .query (ascii "b") () .refl

/-- A machine whose resolver has not been used. -/
def quietWorld : World Unit (DnsJournal Unit Unit) :=
  ⟨neighbourWorld.stack, .initial, .initial, ⟨[], [], ()⟩⟩

/-- A host is looked up, and the server does not know it. -/
def curiousWorld : World Unit (DnsJournal Unit Unit) :=
  handleDnsResponse curiousCallbacks dnsPort 0x01010101
    (be16 0x4D31 ++ be16 0x8183 ++ be16 1 ++ be16 0 ++ be16 0 ++ be16 0)
    (askQuery (netDnsInit quietWorld).2 (ascii "a") ())

theorem dns_queries_answered_once_curious :
    curiousWorld.user.accepted.length = 2 ∧ curiousWorld.user.calls.length = 1 ∧
      DnsAnswersOwn curiousWorld := by
  refine ⟨by decide +kernel, by decide +kernel, ?_⟩
  apply (@dns_queries_answered_once _ _ quietWorld rfl rfl rfl).2 curiousCallbacks
    curiousCallbacks_goOn
  exact .tail (.tail (.single .init) (.query (ascii "a") ())) (.response dnsPort 0x01010101 _)

end Charis.Net
