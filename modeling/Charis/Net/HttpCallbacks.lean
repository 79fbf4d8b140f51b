import Charis.Net.HttpRules

/-!
# The order of the callbacks

A request can end in many places, and some of them lie within the loop that delivers its
response.  Whatever happens, its callbacks are called in order: the one for the headers
at most once, then the one for the body, not for more bytes than the head has declared,
and the one for the end at most once and last.
-/

namespace Charis.Net

open Charis.Lib

/-- The calls of the callbacks of a request. -/
def Http.callsOf (http : Http) (owner : Nat) : List HttpCall :=
  (http.reports.filter fun report => report.owner = owner).map HttpReport.call

namespace HttpCall

def isHeaders : HttpCall → Bool
  | .headers _ _ _ => true
  | _ => false

def isBody : HttpCall → Bool
  | .body _ => true
  | _ => false

def isComplete : HttpCall → Bool
  | .complete _ => true
  | _ => false

/-- How many bytes of the body are given to the user. -/
def bodyBytes : HttpCall → Nat
  | .body data => data.length
  | _ => 0

end HttpCall

def bodyLength (calls : List HttpCall) : Nat := (calls.map HttpCall.bodyBytes).sum

@[simp]
theorem bodyLength_append (calls more : List HttpCall) :
    bodyLength (calls ++ more) = bodyLength calls + bodyLength more := by
  simp [bodyLength]

/-- Calls before the end of a request. -/
def Opened (calls : List HttpCall) : Prop :=
  ∃ heads bodies, calls = heads ++ bodies ∧ heads.length ≤ 1 ∧
    (∀ call ∈ heads, call.isHeaders = true) ∧ ∀ call ∈ bodies, call.isBody = true

/-- The calls of a request: its headers at most once, then parts of its body, then its end
at most once; and not more of the body than the headers have declared. -/
structure InOrder (calls : List HttpCall) : Prop where
  split : ∃ front ends, calls = front ++ ends ∧ Opened front ∧ ends.length ≤ 1 ∧
    ∀ call ∈ ends, call.isComplete = true
  measured : ∀ status length, .headers status true length ∈ calls →
    bodyLength calls ≤ length.toNat

theorem Opened.nil : Opened [] := ⟨[], [], rfl, Nat.zero_le 1, List.forall_mem_nil _,
  List.forall_mem_nil _⟩

theorem Opened.headers (status : BitVec 16) (measured : Bool) (length : BitVec 32) :
    Opened [.headers status measured length] :=
  ⟨[_], [], rfl, Nat.le_refl 1, List.forall_mem_singleton.mpr rfl, List.forall_mem_nil _⟩

theorem Opened.body {calls : List HttpCall} (opened : Opened calls) (data : List UInt8) :
    Opened (calls ++ [.body data]) := by
  obtain ⟨heads, bodies, rfl, once, areHeads, areBodies⟩ := opened
  refine ⟨heads, bodies ++ [.body data], List.append_assoc _ _ _, once, areHeads, ?_⟩
  exact List.forall_mem_append.mpr ⟨areBodies, List.forall_mem_singleton.mpr rfl⟩

theorem InOrder.nil : InOrder [] where
  split := ⟨[], [], rfl, .nil, Nat.zero_le 1, List.forall_mem_nil _⟩
  measured := fun _ _ member => by cases member

/-- An active request and the calls it has made. -/
structure Underway (http : Http) (calls : List HttpCall) : Prop where
  opened : Opened calls
  early : http.headersDone = false → calls = [] ∧ http.receivedBody = 0
  declared : ∀ status measured length, .headers status measured length ∈ calls →
    measured = http.hasContentLength ∧ length = http.expectedBody
  within : http.headersDone = true → http.hasContentLength = true →
    bodyLength calls ≤ http.receivedBody.toNat ∧
      http.receivedBody.toNat ≤ http.expectedBody.toNat

/-- The calls of all requests so far are in order. -/
structure Ordered (http : Http) : Prop where
  owners : ∀ owner, http.HasCallback owner → owner = http.number
  bound : ∀ report ∈ http.reports, report.owner ≤ http.number
  inOrder : ∀ owner, InOrder (http.callsOf owner)
  underway : http.active = true → Underway http (http.callsOf http.number)
  limit : http.headersDone = true → http.hasContentLength = true →
    bodyLength (http.callsOf http.number) ≤ http.expectedBody.toNat

/-- A later state of the same request, with no call for another one. -/
structure Progress (before after : Http) : Prop where
  ordered : Ordered after
  number : after.number = before.number
  others : ∀ owner, owner ≠ before.number → after.callsOf owner = before.callsOf owner

theorem Progress.refl {http : Http} (ordered : Ordered http) : Progress http http :=
  ⟨ordered, rfl, fun _ _ => rfl⟩

theorem Progress.trans {before middle after : Http} (first : Progress before middle)
    (second : Progress middle after) : Progress before after where
  ordered := second.ordered
  number := second.number.trans first.number
  others := fun owner other =>
    (second.others owner (first.number ▸ other)).trans (first.others owner other)

theorem Ordered.initial : Ordered Http.initial where
  owners := fun owner has => by simp [Http.HasCallback, Http.initial] at has
  bound := List.forall_mem_nil _
  inOrder := fun _ => .nil
  underway := fun active => by cases active
  limit := fun done => by cases done

section Steps

variable {before after : Http} (ordered : Ordered before)
  (number : after.number = before.number)
  (callbacks : ∀ owner, after.HasCallback owner → before.HasCallback owner)

include ordered number callbacks

/-- A step of a request without a call. -/
theorem Progress.silent (reports : after.reports = before.reports)
    (underway : after.active = true → Underway after (before.callsOf before.number))
    (limit : after.headersDone = true → after.hasContentLength = true →
      bodyLength (before.callsOf before.number) ≤ after.expectedBody.toNat) :
    Progress before after := by
  have same (owner : Nat) : after.callsOf owner = before.callsOf owner := by
    rw [Http.callsOf, reports]
    rfl
  exact {
    ordered := {
      owners := fun owner has => number ▸ ordered.owners owner (callbacks owner has)
      bound := by
        rw [reports, number]
        exact ordered.bound
      inOrder := fun owner => same owner ▸ ordered.inOrder owner
      underway := by
        rw [number, same]
        exact underway
      limit := by
        rw [number, same]
        exact limit }
    number := number
    others := fun owner _ => same owner }

theorem Progress.call {report : HttpReport} (reports : after.reports = before.reports ++ [report])
    (own : report.owner = before.number)
    (inOrder : InOrder (before.callsOf before.number ++ [report.call]))
    (underway : after.active = true →
      Underway after (before.callsOf before.number ++ [report.call]))
    (limit : after.headersDone = true → after.hasContentLength = true →
      bodyLength (before.callsOf before.number ++ [report.call]) ≤ after.expectedBody.toNat) :
    Progress before after := by
  have calls (owner : Nat) : after.callsOf owner =
      before.callsOf owner ++ if before.number = owner then [report.call] else [] := by
    rw [Http.callsOf, reports, List.filter_append, List.map_append]
    by_cases same : before.number = owner
    · simp [Http.callsOf, own, same]
    · simp [Http.callsOf, own, same]
  have mine : after.callsOf before.number =
      before.callsOf before.number ++ [report.call] := by
    rw [calls, if_pos rfl]
  have others (owner : Nat) (other : owner ≠ before.number) :
      after.callsOf owner = before.callsOf owner := by
    rw [calls, if_neg (Ne.symm other), List.append_nil]
  exact {
    ordered := {
      owners := fun owner has => number ▸ ordered.owners owner (callbacks owner has)
      bound := by
        rw [reports, number]
        exact List.forall_mem_append.mpr ⟨ordered.bound, List.forall_mem_singleton.mpr own.le⟩
      inOrder := by
        intro owner
        by_cases same : owner = before.number
        · rw [same, mine]
          exact inOrder
        · rw [others owner same]
          exact ordered.inOrder owner
      underway := by
        rw [number, mine]
        exact underway
      limit := by
        rw [number, mine]
        exact limit }
    number := number
    others := others }

end Steps

/-- A part of a body that fits is counted without going round. -/
theorem toNat_receivedBody_add {http : Http} {length : Nat}
    (fits : http.receivedBody.toNat + length ≤ http.expectedBody.toNat) :
    (http.receivedBody + BitVec.ofNat 32 length).toNat = http.receivedBody.toNat + length := by
  have range := http.expectedBody.isLt
  rw [BitVec.toNat_add, BitVec.toNat_ofNat]
  omega

namespace Ordered

variable {http : Http} (ordered : Ordered http)

include ordered

/-- The end of a request adds its last call. -/
theorem finish (active : http.active = true) (cause : Option Nat) (connection : Nat)
    (success : Bool) :
    Progress http (http.ended.report http.completeCallback cause connection
      (.complete success)) := by
  have underway := ordered.underway active
  cases callback : http.completeCallback with
  | none =>
      refine .silent ordered rfl (fun owner has => ?_) rfl (fun active => by cases active)
        ordered.limit
      simp [Http.report, Http.ended, Http.HasCallback] at has
  | some owner =>
  have last : bodyLength (http.callsOf http.number ++ [.complete success]) =
      bodyLength (http.callsOf http.number) := by
    rw [bodyLength_append]
    rfl
  have own := ordered.owners owner (.inr (.inr callback))
  refine @Progress.call http _ ordered rfl (fun owner has => ?_)
    ⟨owner, cause, connection, http.ended.hasContentLength, http.ended.response,
      .complete success⟩ rfl own ⟨?_, ?_⟩ (fun active => by cases active) ?_
  · simp [Http.report, Http.ended, Http.HasCallback] at has
  · exact ⟨http.callsOf http.number, [.complete success], rfl, underway.opened,
      Nat.le_refl 1, List.forall_mem_singleton.mpr rfl⟩
  · intro status length member
    rw [last]
    refine (ordered.inOrder http.number).measured status length ?_
    simpa using member
  · intro done measured
    rw [last]
    exact ordered.limit done measured

/-- The head is parsed before the first call. -/
theorem parse (active : http.active = true) (undone : http.headersDone = false) :
    Progress http (parseHeaders http).2 := by
  have underway := ordered.underway active
  obtain ⟨none_, zero⟩ := underway.early undone
  have same := SameRequest.parseHeaders http
  obtain ⟨received, -, done⟩ := HttpView.parseHeaders_keeps http
  refine .silent ordered same.number (fun owner has => ?_) same.reports (fun _ => ?_)
    fun _ _ => ?_
  · rwa [Http.HasCallback, same.headersCallback, same.bodyCallback, same.completeCallback] at has
  · rw [none_]
    exact {
      opened := .nil
      early := fun _ => ⟨rfl, received.trans zero⟩
      declared := fun _ _ _ member => by cases member
      within := fun _ _ => by
        rw [received, zero]
        exact ⟨Nat.zero_le _, Nat.zero_le _⟩ }
  · rw [none_]
    exact Nat.zero_le _

theorem reportHeaders (active : http.active = true) (done : http.headersDone = true)
    (first : http.callsOf http.number = []) (cause : Option Nat) (connection : Nat) :
    Progress http (http.report http.headersCallback cause connection
      (.headers http.responseStatus http.hasContentLength http.expectedBody)) := by
  have underway := ordered.underway active
  cases callback : http.headersCallback with
  | none => exact .refl ordered
  | some owner =>
  have own := ordered.owners owner (.inl callback)
  refine @Progress.call http _ ordered rfl (fun owner => id)
    ⟨owner, cause, connection, http.hasContentLength, http.response,
      .headers http.responseStatus http.hasContentLength http.expectedBody⟩ rfl own ?_
    (fun _ => ?_) fun _ _ => ?_
  · rw [first]
    exact ⟨⟨_, [], (List.append_nil _).symm, .headers _ _ _, Nat.zero_le 1,
      List.forall_mem_nil _⟩, fun _ _ _ => Nat.zero_le _⟩
  · rw [first]
    exact {
      opened := .headers _ _ _
      early := fun undone => by
        rw [show http.headersDone = false from undone] at done
        cases done
      declared := by
        intro status measured length member
        simp only [List.nil_append, List.mem_singleton, HttpCall.headers.injEq] at member
        exact member.2
      within := fun done measured => ⟨Nat.zero_le _, (underway.within done measured).2⟩ }
  · rw [first]
    exact Nat.zero_le _

/-- A part of the body that is not reported is counted. -/
theorem count (active : http.active = true) (done : http.headersDone = true) {length : Nat}
    (fits : http.hasContentLength = true →
      http.receivedBody.toNat + length ≤ http.expectedBody.toNat) :
    Progress http { http with receivedBody := http.receivedBody + BitVec.ofNat 32 length } := by
  have underway := ordered.underway active
  refine .silent ordered rfl (fun _ => id) rfl (fun _ => ?_) ordered.limit
  exact {
    opened := underway.opened
    early := fun undone => by
      rw [show http.headersDone = false from undone] at done
      cases done
    declared := underway.declared
    within := fun _ measured => by
      rw [toNat_receivedBody_add (fits measured)]
      have before := underway.within done measured
      exact ⟨before.1.trans (Nat.le_add_right _ _), fits measured⟩ }

theorem reportBody (active : http.active = true) (done : http.headersDone = true)
    {data : List UInt8} (fits : http.hasContentLength = true →
      http.receivedBody.toNat + data.length ≤ http.expectedBody.toNat)
    {owner : Nat} (callback : http.bodyCallback = some owner) (cause : Option Nat)
    (connection : Nat) :
    Progress http { http.report http.bodyCallback cause connection (.body data) with
      receivedBody := http.receivedBody + BitVec.ofNat 32 data.length } := by
  have underway := ordered.underway active
  have own := ordered.owners owner (.inr (.inl callback))
  have longer : bodyLength (http.callsOf http.number ++ [.body data]) =
      bodyLength (http.callsOf http.number) + data.length := by
    rw [bodyLength_append]
    simp [bodyLength, HttpCall.bodyBytes]
  have within (measured : http.hasContentLength = true) :
      bodyLength (http.callsOf http.number ++ [.body data]) ≤
        http.receivedBody.toNat + data.length := by
    rw [longer]
    exact Nat.add_le_add_right (underway.within done measured).1 _
  have declared : ∀ status measured length,
      HttpCall.headers status measured length ∈ http.callsOf http.number ++ [.body data] →
      measured = http.hasContentLength ∧ length = http.expectedBody := by
    intro status measured length member
    refine underway.declared status measured length ?_
    simpa using member
  rw [callback]
  refine @Progress.call http _ ordered rfl (fun owner has => ?_)
    ⟨owner, cause, connection, http.hasContentLength, http.response, .body data⟩ rfl own
    ⟨?_, ?_⟩ (fun _ => ?_) fun _ measured => (within measured).trans (fits measured)
  · simpa [Http.HasCallback, Http.report] using has
  · exact ⟨_, [], (List.append_nil _).symm, underway.opened.body data, Nat.zero_le 1,
      List.forall_mem_nil _⟩
  · intro status length member
    obtain ⟨measured, same⟩ := declared status true length member
    rw [same]
    exact (within measured.symm).trans (fits measured.symm)
  · exact {
      opened := underway.opened.body data
      early := fun undone => by
        rw [show http.headersDone = false from undone] at done
        cases done
      declared := declared
      within := fun _ measured => by
        rw [toNat_receivedBody_add (fits measured)]
        exact ⟨within measured, fits measured⟩ }

/-- A part of the body is counted, and reported unless it is empty. -/
theorem deliver (active : http.active = true) (done : http.headersDone = true)
    {data : List UInt8} (fits : http.hasContentLength = true →
      http.receivedBody.toNat + data.length ≤ http.expectedBody.toNat)
    {cause : Option Nat} {connection : Nat} {noted : Http}
    (noting : (if data.length = 0 then http
      else http.report http.bodyCallback cause connection (.body data)) = noted) :
    Progress http { noted with
      receivedBody := noted.receivedBody + BitVec.ofNat 32 data.length } := by
  subst noting
  split
  · exact ordered.count active done fits
  cases callback : http.bodyCallback with
  | none => exact ordered.count active done fits
  | some owner =>
      have reported := ordered.reportBody active done fits callback cause connection
      rwa [callback] at reported

/-- Bytes that are only stored change nothing. -/
theorem store (headerBuffer response : List UInt8) :
    Progress http { http with headerBuffer, response } :=
  .silent ordered rfl (fun _ => id) rfl
    (fun active =>
      have underway := ordered.underway active
      ⟨underway.opened, underway.early, underway.declared, underway.within⟩)
    ordered.limit

/-- The header loop of `http_on_data`. -/
theorem readHeaders (active : http.active = true) (undone : http.headersDone = false)
    (key connection : Nat) (data : List UInt8) :
    Progress http (Net.readHeaders key connection http data).2.1 ∧
      (Net.readHeaders key connection http data).2.1.active = true := by
  induction data generalizing http with
  | nil => exact ⟨.refl ordered, active⟩
  | cons byte data ih =>
  by_cases full : http.headerBuffer.length ≥ httpHeaderMax
  · rw [Net.readHeaders, if_neg (by simp [undone]), if_pos full]
    exact ⟨.refl ordered, active⟩
  rw [readHeaders_push key connection undone full]
  have pushed : Progress http (http.push byte) := ordered.store _ http.response
  split
  · have parsed := pushed.trans (pushed.ordered.parse active undone)
    have same := SameRequest.parseHeaders (http.push byte)
    obtain ⟨-, -, done⟩ := HttpView.parseHeaders_keeps (http.push byte)
    have first : (parseHeaders (http.push byte)).2.callsOf
        (parseHeaders (http.push byte)).2.number = [] := by
      rw [Http.callsOf, same.reports, same.number]
      exact ((ordered.underway active).early undone).1
    have still := same.active.trans active
    generalize parseHeaders (http.push byte) = result at parsed done first still
    obtain ⟨ok, after⟩ := result
    cases ok with
    | false => exact ⟨parsed, still⟩
    | true =>
    have reported := parsed.trans (parsed.ordered.reportHeaders still done first
      (some key) connection)
    have fields := Tracks.report_fields after after.headersCallback (some key) connection
      (.headers after.responseStatus after.hasContentLength after.expectedBody)
    have complete : (after.report after.headersCallback (some key) connection
        (.headers after.responseStatus after.hasContentLength
          after.expectedBody)).headersDone = true := by
      cases after.headersCallback <;> exact done
    dsimp only
    rw [readHeaders_done key connection complete]
    exact ⟨reported, fields.1.trans still⟩
  · have rest := ih pushed.ordered active undone
    exact ⟨pushed.trans rest.1, rest.2⟩

end Ordered

/-! ## The entry points -/

section EntryPoints

variable {world : World Nat Http} (ordered : Ordered world.user)

include ordered

theorem finishRequest_progress (cause : Option Nat) (success closeTcp : Bool) :
    Progress world.user (finishRequest cause success closeTcp world).user := by
  cases active : world.user.active with
  | false =>
      rw [finishRequest_of_inactive cause success closeTcp active]
      exact .refl ordered
  | true =>
      obtain ⟨connection, user⟩ := finishRequest_user cause success closeTcp active
      rw [user]
      exact ordered.finish active cause connection success

/-- The part of the data that is delivered is within the declared length. -/
theorem bodyPart_fits (active : world.user.active = true)
    (done : world.user.headersDone = true) (data : List UInt8)
    (measured : world.user.hasContentLength = true) :
    world.user.receivedBody.toNat + (bodyPart world.user data).length ≤
      world.user.expectedBody.toNat := by
  have within := ((ordered.underway active).within done measured).2
  have remaining : (if world.user.expectedBody > world.user.receivedBody then
      (world.user.expectedBody - world.user.receivedBody).toNat else 0) =
        world.user.expectedBody.toNat - world.user.receivedBody.toNat := by
    split
    · next more =>
        have less : world.user.receivedBody.toNat < world.user.expectedBody.toNat := more
        rw [BitVec.toNat_sub_of_le (Nat.le_of_lt less)]
    · next none_ =>
        have least : world.user.expectedBody.toNat ≤ world.user.receivedBody.toNat :=
          Nat.not_lt.mp none_
        exact (Nat.sub_eq_zero_of_le least).symm
  simp only [bodyPart, measured, true_and, remaining]
  split
  · rw [List.length_take]
    omega
  · omega

theorem deliverBody_progress (done : world.user.headersDone = true) (key : Nat)
    (data : List UInt8) : Progress world.user (deliverBody key data world).user := by
  simp only [deliverBody]
  split
  · exact .refl ordered
  next going =>
  simp only [not_or, Bool.not_eq_true', Bool.not_eq_false] at going
  generalize noting : (if (bodyPart world.user data).length = 0 then world.user else _) = noted
  have delivered := ordered.deliver going.2 done (bodyPart_fits ordered going.2 done data) noting
  split
  · exact delivered.trans (@finishRequest_progress { world with user := _ }
      delivered.ordered _ _ _)
  · exact delivered

theorem httpOnData_progress (key : Nat) (data : List UInt8) :
    Progress world.user (httpOnData key data world).user := by
  simp only [httpOnData]
  split
  · exact .refl ordered
  next going =>
  simp only [Bool.not_eq_true', Bool.not_eq_false] at going
  have stored := ordered.store world.user.headerBuffer (world.user.response ++ data)
  split
  · next done =>
      exact stored.trans (@deliverBody_progress { world with user := _ }
        stored.ordered done key data)
  next undone =>
  rw [Bool.not_eq_true] at undone
  have read := stored.ordered.readHeaders going undone key world.tcp.past.length data
  generalize readHeaders _ _ _ _ = result at read ⊢
  obtain ⟨ok, http, rest⟩ := result
  have reading := stored.trans read.1
  cases ok with
  | false =>
      exact reading.trans (@finishRequest_progress { world with user := http }
        reading.ordered _ _ _)
  | true =>
  simp only
  split
  · exact reading.trans (@finishRequest_progress { world with user := http }
      reading.ordered _ _ _)
  split
  · next done =>
      exact reading.trans (@deliverBody_progress { world with user := http }
        reading.ordered done key rest)
  · exact reading

theorem httpOnConnect_progress (key : Nat) (connected : Bool) :
    Progress world.user (httpOnConnect key connected world).user := by
  simp only [httpOnConnect]
  split
  · exact .refl ordered
  split
  · exact finishRequest_progress ordered _ _ _
  split
  · exact finishRequest_progress ordered _ _ _
  next text _ =>
  have user := (Tracks.netTcpSend_rest world text).2
  generalize netTcpSend world text = sent at user ⊢
  obtain ⟨result, after⟩ := sent
  have kept : Ordered after.user := user ▸ ordered
  cases result with
  | failed => exact user ▸ finishRequest_progress kept _ _ _
  | done _ => exact user ▸ .refl kept
  | resolving => exact user ▸ .refl kept

theorem httpOnDns_progress (key : Nat) (ip : Ipv4) (success : Bool) :
    Progress world.user (httpOnDns key ip success world).user := by
  simp only [httpOnDns]
  split
  · exact .refl ordered
  split
  · exact finishRequest_progress ordered _ _ _
  have user := netTcpConnect_user world ip 80 key (some key) (some key)
  generalize netTcpConnect world ip 80 key (some key) (some key) = connected at user ⊢
  obtain ⟨ok, after⟩ := connected
  have kept : Ordered after.user := user ▸ ordered
  cases ok with
  | false => exact user ▸ finishRequest_progress kept _ _ _
  | true => exact user ▸ .refl kept

theorem httpOnClosed_progress (key : Nat) (clean : Bool) :
    Progress world.user (httpOnClosed key clean world).user := by
  simp only [httpOnClosed]
  split
  · exact .refl ordered
  · exact finishRequest_progress ordered _ _ _

end EntryPoints

/-- A new request has not made any call. -/
theorem Ordered.renew {before after : Http} (ordered : Ordered before)
    (number : after.number = before.number + 1) (reports : after.reports = before.reports)
    (owners : ∀ owner, after.HasCallback owner → owner = after.number)
    (undone : after.headersDone = false) (zero : after.receivedBody = 0) : Ordered after := by
  have bound : ∀ report ∈ after.reports, report.owner ≤ before.number := by
    rw [reports]
    exact ordered.bound
  have none_ : after.callsOf after.number = [] := by
    rw [Http.callsOf, List.map_eq_nil_iff, List.filter_eq_nil_iff]
    intro report member
    have early := bound report member
    rw [number, decide_eq_true_eq]
    omega
  exact {
    owners := owners
    bound := fun report member => (bound report member).trans (by omega)
    inOrder := fun owner => by
      rw [Http.callsOf, reports]
      exact ordered.inOrder owner
    underway := fun _ => by
      rw [none_]
      exact {
        opened := .nil
        early := fun _ => ⟨rfl, zero⟩
        declared := fun _ _ _ member => by cases member
        within := fun done => by
          rw [undone] at done
          cases done }
    limit := fun done => by
      rw [undone] at done
      cases done }

theorem netHttpGet_ordered {world : World Nat Http} (ordered : Ordered world.user)
    (request : HttpRequest) :
    Ordered (netHttpGet request world).2.user ∧
      (netHttpGet request world).2.user.reports = world.user.reports := by
  rw [netHttpGet]
  split
  · exact ⟨ordered, rfl⟩
  dsimp only
  rcases Tracks.netDnsQuery_cases _ request.hostname _ with failed | ⟨dns, asked, -⟩
  · rw [failed]
    refine ⟨ordered.renew rfl rfl (fun owner has => ?_) rfl rfl, rfl⟩
    simp [Http.HasCallback] at has
  · rw [asked]
    refine ⟨ordered.renew rfl rfl (fun owner has => ?_) rfl rfl, rfl⟩
    simp only [Http.HasCallback] at has
    rcases has with has | has | has
    · split at has
      · exact (Option.some.inj has).symm
      · cases has
    · split at has
      · exact (Option.some.inj has).symm
      · cases has
    · exact (Option.some.inj has).symm

/-- An entry point keeps the order, and calls no callback of a request that is not the
current one. -/
theorem clientAfter_ordered {world : World Nat Http} (ordered : Ordered world.user)
    (event : ClientEvent) :
    Ordered (clientAfter world event).user ∧ ∀ owner, owner ≠ world.user.number →
      (clientAfter world event).user.callsOf owner = world.user.callsOf owner := by
  have of_progress {after : Http} (progress : Progress world.user after) :
      Ordered after ∧ ∀ owner, owner ≠ world.user.number →
        after.callsOf owner = world.user.callsOf owner :=
    ⟨progress.ordered, progress.others⟩
  cases event with
  | get request =>
      obtain ⟨kept, reports⟩ := netHttpGet_ordered ordered request
      refine ⟨kept, fun owner _ => ?_⟩
      simp only [clientAfter, Http.callsOf, reports]
  | cancel => exact of_progress (finishRequest_progress ordered _ _ _)
  | dns key ip success => exact of_progress (httpOnDns_progress ordered key ip success)
  | connect key connected => exact of_progress (httpOnConnect_progress ordered key connected)
  | data key bytes => exact of_progress (httpOnData_progress ordered key bytes)
  | closed key clean => exact of_progress (httpOnClosed_progress ordered key clean)
  | other stack tcp dns => exact ⟨ordered, fun _ _ => rfl⟩

theorem clientKeeps_ordered : ClientKeeps Ordered := fun _ event ordered =>
  (clientAfter_ordered ordered event).1

/-- In every interleaving of the client's entry points, with any change of the rest of the
network code between them, the calls of every request are in order; the body that the
current request was given is within the length that its head has declared; and the next
entry point calls no callback of any other request. -/
theorem http_callbacks_in_order {start finish : World Nat Http} {events : List ClientEvent}
    (fresh : start.user = Http.initial) (run : Run ClientStep start events finish) :
    (∀ owner, InOrder (finish.user.callsOf owner)) ∧
      (finish.user.headersDone = true → finish.user.hasContentLength = true →
        bodyLength (finish.user.callsOf finish.user.number) ≤
          finish.user.expectedBody.toNat) ∧
      ∀ event owner, owner ≠ finish.user.number →
        (clientAfter finish event).user.callsOf owner = finish.user.callsOf owner := by
  have ordered : Ordered finish.user := clientKeeps_ordered.run run (fresh ▸ .initial)
  exact ⟨ordered.inOrder, ordered.limit, fun event => (clientAfter_ordered ordered event).2⟩

/-- The resolver is ready for a lookup, and there is no connection. -/
def resolverReady : ClientEvent :=
  .other httpWorld.stack httpWorld.tcp (httpAfter httpWorld .dnsInit).dns

/-- The connection of the first request is open. -/
def connectionOpen : ClientEvent :=
  .other httpWorld.stack (requestEvents.foldl httpAfter httpWorld).tcp .initial

/-- A response of two bytes that comes with a byte too much, and a request that is
cancelled. -/
def twoRequests : List ClientEvent :=
  [resolverReady, .get (pageRequest 0x61), .dns 1 0x0A000202 true, connectionOpen,
    .connect 1 true, .data 1 (ascii "HTTP/1.0 200 OK\r\nContent-Length: 2\r\n\r\nabc"),
    .closed 1 true, resolverReady, .get (pageRequest 0x62), .cancel]

/-- The general statement at these requests. -/
theorem http_callbacks_in_order_page :
    (twoRequests.foldl clientAfter httpWorld).user.callsOf 1 =
        [.headers 200 true 2, .body (ascii "ab"), .complete true] ∧
      (twoRequests.foldl clientAfter httpWorld).user.callsOf 2 = [.complete false] ∧
      ∀ owner, InOrder ((twoRequests.foldl clientAfter httpWorld).user.callsOf owner) := by
  have calls : (twoRequests.foldl clientAfter httpWorld).user.callsOf 1 =
        [.headers 200 true 2, .body (ascii "ab"), .complete true] ∧
      (twoRequests.foldl clientAfter httpWorld).user.callsOf 2 = [.complete false] := by
    decide +kernel
  have run := run_client httpWorld twoRequests
  generalize twoRequests.foldl clientAfter httpWorld = finish at calls run ⊢
  exact ⟨calls.1, calls.2, (http_callbacks_in_order rfl run).1⟩

end Charis.Net
