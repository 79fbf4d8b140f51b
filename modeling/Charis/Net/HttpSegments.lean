import Charis.Net.HttpSessions

/-!
# Segments of a response

The client is fed segments, but what its user sees depends only on the bytes: feeding a
segment is feeding its bytes one after the other.  What is compared is the view of the
user, in which the data of several calls for the body is one text.
-/

namespace Charis.Net

/-- The arguments of a call of the headers callback. -/
structure HeadersCall where
  status : BitVec 16
  hasContentLength : Bool
  contentLength : BitVec 32
  deriving DecidableEq

/-- What the callbacks have been given in some calls. -/
structure Outcome where
  headers : List HeadersCall := []
  body : List UInt8 := []
  completed : List Bool := []
  deriving DecidableEq

namespace Outcome

/-- What a call gives, after others. -/
def add (outcome : Outcome) : HttpCall → Outcome
  | .headers status hasContentLength contentLength =>
      { outcome with headers := outcome.headers ++ [⟨status, hasContentLength, contentLength⟩] }
  | .body data => { outcome with body := outcome.body ++ data }
  | .complete success => { outcome with completed := outcome.completed ++ [success] }

end Outcome

/-- What the callbacks have been given so far. -/
def Http.outcome (http : Http) : Outcome :=
  (http.reports.map (·.call)).foldl Outcome.add {}

/-- The data of the client without its records. -/
def Http.plain (http : Http) : Http := { http with response := [], reports := [] }

/-- The data of the client, with what the callbacks have been given. -/
structure HttpView where
  http : Http
  outcome : Outcome

def Http.view (http : Http) : HttpView := ⟨http.plain, http.outcome⟩

namespace HttpView

/-- A call of a callback, if there is one. -/
def note (view : HttpView) (callback : Option Nat) (call : HttpCall) : HttpView :=
  match callback with
  | none => view
  | some _ => { view with outcome := view.outcome.add call }

/-- The end of a request. -/
def finish (view : HttpView) (success : Bool) : HttpView :=
  if !view.http.active then view
  else
    HttpView.note
      { view with
        http := { view.http with
          active := false
          completeCallback := none
          headersCallback := none
          bodyCallback := none } }
      view.http.completeCallback (.complete success)

/-- Data for the body. -/
def deliver (view : HttpView) (data : List UInt8) : HttpView :=
  if data.length = 0 ∨ !view.http.active then view
  else
    let data := bodyPart view.http data
    let noted := if data.length = 0 then view else view.note view.http.bodyCallback (.body data)
    let http : Http := { view.http with
      receivedBody := view.http.receivedBody + BitVec.ofNat 32 data.length }
    if http.hasContentLength ∧ http.receivedBody ≥ http.expectedBody then
      { noted with http }.finish true
    else { noted with http }

/-- The end of a head. -/
def parse (view : HttpView) : HttpView :=
  match parseHeaders view.http with
  | (false, http) => { view with http }.finish false
  | (true, http) =>
      let noted := { view with http }.note http.headersCallback
        (.headers http.responseStatus http.hasContentLength http.expectedBody)
      if http.hasContentLength ∧ http.expectedBody = 0 then noted.finish true else noted

/-- One byte of a response. -/
def byte (view : HttpView) (byte : UInt8) : HttpView :=
  if !view.http.active then view
  else if view.http.headersDone then view.deliver [byte]
  else if view.http.headerBuffer.length ≥ httpHeaderMax then view.finish false
  else
    let view := { view with
      http := { view.http with headerBuffer := view.http.headerBuffer ++ [byte] } }
    if (crlf ++ crlf).isSuffixOf view.http.headerBuffer then view.parse else view

/-- The end of the connection. -/
def closed (view : HttpView) (clean : Bool) : HttpView :=
  view.finish (clean && view.http.headersDone &&
    (!view.http.hasContentLength || view.http.receivedBody ≥ view.http.expectedBody))

end HttpView

theorem parseField_plain (http : Http) (name value : List UInt8) :
    parseField http.plain name value = (parseField http name value).map Http.plain := by
  unfold parseField
  split
  · cases parseDecimal value with
    | none => rfl
    | some parsed =>
    dsimp only
    split
    next differs =>
      rw [if_pos (by exact differs)]
      rfl
    next agrees =>
      rw [if_neg (by exact agrees)]
      rfl
  split
  · split <;> rfl
  · rfl

theorem parseFields_plain (text : List UInt8) (headersEnd steps line : Nat) (http : Http) :
    parseFields text headersEnd steps line http.plain =
      ((parseFields text headersEnd steps line http).1,
        (parseFields text headersEnd steps line http).2.plain) := by
  induction steps generalizing line http with
  | zero => rfl
  | succ steps ih =>
  simp only [parseFields, parseField_plain]
  split
  · rfl
  split
  · rfl
  split
  · rfl
  split
  · rfl
  cases parsed : parseField http _ _ with
  | none => rfl
  | some after => exact ih _ _

theorem parseHeaders_plain (http : Http) :
    parseHeaders http.plain = ((parseHeaders http).1, (parseHeaders http).2.plain) := by
  have fields (value : BitVec 16) (text : List UInt8) (headersEnd steps line : Nat) :
      parseFields text headersEnd steps line { http.plain with responseStatus := value } =
        ((parseFields text headersEnd steps line { http with responseStatus := value }).1,
          (parseFields text headersEnd steps line
            { http with responseStatus := value }).2.plain) :=
    parseFields_plain text headersEnd steps line { http with responseStatus := value }
  have buffer : http.plain.headerBuffer = http.headerBuffer := rfl
  simp only [parseHeaders, fields]
  rw [buffer]
  split
  · rfl
  split
  · rfl
  split
  · rfl
  split
  · rfl
  split
  · rfl
  · generalize parseFields _ _ _ _ _ = parsed
    obtain ⟨ok, after⟩ := parsed
    cases ok with
    | false => rfl
    | true =>
        have chunked : after.plain.chunkedEncoding = after.chunkedEncoding := rfl
        simp only [chunked]
        split <;> rfl

@[simp] theorem HttpView.note_http (view : HttpView) (callback : Option Nat) (call : HttpCall) :
    (view.note callback call).http = view.http := by
  cases callback <;> rfl

theorem view_receivedBody (http : Http) (received : BitVec 32) :
    { http with receivedBody := received }.view =
      { http.view with http := { http.view.http with receivedBody := received } } :=
  rfl

theorem view_report (http : Http) (callback cause : Option Nat) (connection : Nat)
    (call : HttpCall) :
    (http.report callback cause connection call).view = http.view.note callback call := by
  cases callback with
  | none => rfl
  | some owner =>
      simp only [Http.view, Http.report, Http.outcome, HttpView.note, List.map_append,
        List.map_cons, List.map_nil, List.foldl_append, List.foldl_cons, List.foldl_nil]
      rfl

theorem view_finishRequest (cause : Option Nat) (success closeTcp : Bool)
    (world : World Nat Http) :
    (finishRequest cause success closeTcp world).user.view = world.user.view.finish success := by
  have active : world.user.view.http.active = world.user.active := rfl
  rw [finishRequest, HttpView.finish, active]
  split
  · rfl
  · dsimp only
    rw [view_report]
    cases closeTcp with
    | false => rfl
    | true =>
        rw [if_pos rfl, Tracks.netTcpClose_user]
        rfl

theorem view_deliverBody (key : Nat) (data : List UInt8) (world : World Nat Http) :
    (deliverBody key data world).user.view = world.user.view.deliver data := by
  have active : world.user.view.http.active = world.user.active := rfl
  have part : bodyPart world.user.view.http data = bodyPart world.user data := rfl
  rw [deliverBody, HttpView.deliver, active]
  split
  · rfl
  dsimp only
  rw [part]
  by_cases empty : (bodyPart world.user data).length = 0
  · rw [if_pos empty, if_pos empty]
    split
    next full =>
      rw [if_pos (by exact full), view_finishRequest]
      rfl
    next more =>
      rw [if_neg (by exact more)]
      rfl
  rw [if_neg empty, if_neg empty]
  have noted := view_report world.user world.user.bodyCallback (some key)
    world.tcp.past.length (.body (bodyPart world.user data))
  generalize world.user.report _ _ _ _ = reported at noted ⊢
  have same : reported.view.http = world.user.view.http := by
    rw [noted, HttpView.note_http]
  have measured : reported.hasContentLength = world.user.hasContentLength := by
    have field := congrArg Http.hasContentLength same
    exact field
  have received : reported.receivedBody = world.user.receivedBody := by
    have field := congrArg Http.receivedBody same
    exact field
  have expected : reported.expectedBody = world.user.expectedBody := by
    have field := congrArg Http.expectedBody same
    exact field
  have counted : ∀ count : BitVec 32,
      { reported with receivedBody := reported.receivedBody + count }.view =
        { world.user.view.note world.user.bodyCallback
            (.body (bodyPart world.user data)) with
          http := { world.user.view.http with
            receivedBody := world.user.receivedBody + count } } := by
    intro count
    rw [view_receivedBody, same, noted, received]
  by_cases full : world.user.hasContentLength = true ∧
      world.user.receivedBody + BitVec.ofNat 32 (bodyPart world.user data).length ≥
        world.user.expectedBody
  · rw [if_pos (by rw [measured, received, expected]; exact full), if_pos (by exact full),
      view_finishRequest, counted]
    rfl
  · rw [if_neg (by rw [measured, received, expected]; exact full), if_neg (by exact full),
      counted]
    rfl

/-! ## Byte by byte -/

/-- The fields that describe the head are the same. -/
structure SameHead (before after : Http) : Prop where
  headersDone : after.headersDone = before.headersDone
  hasContentLength : after.hasContentLength = before.hasContentLength
  expectedBody : after.expectedBody = before.expectedBody
  headerBuffer : after.headerBuffer = before.headerBuffer

theorem SameHead.trans {first second third : Http} (early : SameHead first second)
    (late : SameHead second third) : SameHead first third where
  headersDone := late.headersDone.trans early.headersDone
  hasContentLength := late.hasContentLength.trans early.hasContentLength
  expectedBody := late.expectedBody.trans early.expectedBody
  headerBuffer := late.headerBuffer.trans early.headerBuffer

namespace HttpView

/-- Between two bytes: nothing of the body has been received before the end of the head, and
the body is not complete. -/
structure Steady (view : HttpView) : Prop where
  before : view.http.active = true → view.http.headersDone = false → view.http.receivedBody = 0
  missing : view.http.active = true → view.http.headersDone = true →
    view.http.hasContentLength = true → view.http.receivedBody < view.http.expectedBody

variable {view : HttpView}

theorem deliver_nil (view : HttpView) : view.deliver [] = view := by
  rw [deliver, if_pos (.inl rfl)]

theorem deliver_inactive (inactive : view.http.active = false) (data : List UInt8) :
    view.deliver data = view := by
  rw [deliver, if_pos (.inr (by simp [inactive]))]

theorem byte_inactive (inactive : view.http.active = false) (byte : UInt8) :
    view.byte byte = view := by
  rw [HttpView.byte, if_pos (by simp [inactive])]

theorem bytes_inactive (inactive : view.http.active = false) (data : List UInt8) :
    data.foldl HttpView.byte view = view := by
  induction data with
  | nil => rfl
  | cons byte data ih => rw [List.foldl_cons, byte_inactive inactive, ih]

theorem finish_active (view : HttpView) (success : Bool) :
    (view.finish success).http.active = false := by
  unfold finish
  split
  next inactive => simpa using inactive
  · rw [note_http]

theorem finish_head (view : HttpView) (success : Bool) :
    SameHead view.http (view.finish success).http := by
  unfold finish
  split
  · exact ⟨rfl, rfl, rfl, rfl⟩
  · rw [note_http]
    exact ⟨rfl, rfl, rfl, rfl⟩

theorem deliver_head (view : HttpView) (data : List UInt8) :
    SameHead view.http (view.deliver data).http := by
  unfold deliver
  split
  · exact ⟨rfl, rfl, rfl, rfl⟩
  dsimp only
  split
  · have same := finish_head
      ⟨{ view.http with
          receivedBody := view.http.receivedBody +
            BitVec.ofNat 32 (bodyPart view.http data).length },
        (if (bodyPart view.http data).length = 0 then view
          else view.note view.http.bodyCallback (.body (bodyPart view.http data))).outcome⟩ true
    exact ⟨same.headersDone, same.hasContentLength, same.expectedBody, same.headerBuffer⟩
  · exact ⟨rfl, rfl, rfl, rfl⟩

theorem finish_inactive (inactive : view.http.active = false) (success : Bool) :
    view.finish success = view := by
  rw [finish, if_pos (by simp [inactive])]

/-- The data of two calls for the body is one text. -/
theorem note_body (view : HttpView) (callback : Option Nat) (first second : List UInt8) :
    (view.note callback (.body first)).note callback (.body second) =
      view.note callback (.body (first ++ second)) := by
  cases callback with
  | none => rfl
  | some _ => simp only [note, Outcome.add, List.append_assoc]

/-- The view once some data has been taken for the body. -/
def received (view : HttpView) (data : List UInt8) : HttpView :=
  { view.note view.http.bodyCallback (.body data) with
    http := { view.http with
      receivedBody := view.http.receivedBody + BitVec.ofNat 32 data.length } }

theorem received_received (view : HttpView) (first second : List UInt8) :
    (view.received first).received second = view.received (first ++ second) := by
  have noted := note_body view view.http.bodyCallback first second
  have outcome := congrArg HttpView.outcome noted
  simp only [received, List.length_append, BitVec.ofNat_add, ← BitVec.add_assoc]
  congr 1
  rw [← outcome]
  cases view.http.bodyCallback <;> rfl

theorem deliver_filled (active : view.http.active = true) {data : List UInt8}
    (filled : bodyPart view.http data ≠ []) :
    view.deliver data =
      if view.http.hasContentLength = true ∧
          (view.received (bodyPart view.http data)).http.receivedBody ≥
            view.http.expectedBody then
        (view.received (bodyPart view.http data)).finish true
      else view.received (bodyPart view.http data) := by
  have length : ¬ (bodyPart view.http data).length = 0 := fun zero =>
    filled (List.eq_nil_of_length_eq_zero zero)
  have some_data : ¬ (data.length = 0 ∨ (!view.http.active) = true) := by
    rintro (zero | inactive)
    · rw [List.eq_nil_of_length_eq_zero zero] at filled
      exact filled (by simp [bodyPart])
    · simp [active] at inactive
  rw [deliver, if_neg some_data]
  dsimp only
  rw [if_neg length]
  rfl

theorem deliver_unmeasured (active : view.http.active = true)
    (unmeasured : view.http.hasContentLength = false) {data : List UInt8} (filled : data ≠ []) :
    view.deliver data = view.received data := by
  have part : bodyPart view.http data = data := by
    rw [bodyPart, if_neg (by simp [unmeasured])]
  rw [deliver_filled active (by rw [part]; exact filled), if_neg (by simp [unmeasured]), part]

/-- What is missing of a body of known length. -/
def missing (view : HttpView) : Nat :=
  view.http.expectedBody.toNat - view.http.receivedBody.toNat

/-- What is delivered of a body of known length. -/
theorem deliver_measured (active : view.http.active = true)
    (measured : view.http.hasContentLength = true)
    (incomplete : view.http.receivedBody < view.http.expectedBody) {data : List UInt8}
    (filled : data ≠ []) :
    view.deliver data =
      if view.missing ≤ data.length then
        (view.received (data.take view.missing)).finish true
      else view.received data := by
  have less : view.http.receivedBody.toNat < view.http.expectedBody.toNat := incomplete
  have bound := view.http.expectedBody.isLt
  have missing : (view.http.expectedBody - view.http.receivedBody).toNat = view.missing := by
    rw [HttpView.missing]
    exact BitVec.toNat_sub_of_le (BitVec.le_of_lt incomplete)
  have part : bodyPart view.http data = data.take view.missing := by
    rw [bodyPart, if_pos incomplete, missing]
    split
    · rfl
    next short =>
      rw [List.take_of_length_le]
      exact Nat.le_of_not_lt fun long => short ⟨measured, long⟩
  have some_part : data.take view.missing ≠ [] := by
    rw [Ne, List.take_eq_nil_iff, not_or]
    exact ⟨by unfold HttpView.missing; omega, filled⟩
  rw [deliver_filled active (by rw [part]; exact some_part), part]
  have sum : (view.received (data.take view.missing)).http.receivedBody.toNat =
      view.http.receivedBody.toNat + min view.missing data.length := by
    simp only [received, BitVec.toNat_add, BitVec.toNat_ofNat, List.length_take]
    unfold HttpView.missing
    omega
  have full : view.http.hasContentLength = true ∧
      (view.received (data.take view.missing)).http.receivedBody ≥ view.http.expectedBody ↔
        view.missing ≤ data.length := by
    rw [ge_iff_le, BitVec.le_def, sum]
    unfold HttpView.missing
    constructor
    · rintro ⟨_, reached⟩
      omega
    · intro reached
      exact ⟨measured, by omega⟩
  by_cases enough : view.missing ≤ data.length
  · rw [if_pos (full.mpr enough), if_pos enough]
  · rw [if_neg (fun reached => enough (full.mp reached)), if_neg enough,
      List.take_of_length_le (by omega)]

/-- Data is delivered byte by byte. -/
theorem deliver_cons (active : view.http.active = true)
    (incomplete : view.http.hasContentLength = true →
      view.http.receivedBody < view.http.expectedBody) (byte : UInt8) (rest : List UInt8) :
    view.deliver (byte :: rest) = (view.deliver [byte]).deliver rest := by
  cases rest with
  | nil => exact (deliver_nil _).symm
  | cons next rest =>
  have active' : (view.received [byte]).http.active = true := active
  cases measured : view.http.hasContentLength with
  | false =>
      have measured' : (view.received [byte]).http.hasContentLength = false := measured
      rw [deliver_unmeasured active measured (List.cons_ne_nil _ _),
        deliver_unmeasured active measured (List.cons_ne_nil _ _),
        deliver_unmeasured active' measured' (List.cons_ne_nil _ _), received_received]
      rfl
  | true =>
  have less := incomplete measured
  have less' : view.http.receivedBody.toNat < view.http.expectedBody.toNat := less
  rw [deliver_measured active measured less (List.cons_ne_nil _ _),
    deliver_measured active measured less (List.cons_ne_nil byte [])]
  by_cases last : view.missing ≤ 1
  · have one : view.missing = 1 := by
      unfold HttpView.missing at last ⊢
      omega
    rw [if_pos (by rw [one]; simp), if_pos (by rw [one]; simp),
      deliver_inactive (finish_active _ _), one]
    rfl
  have one : (view.received [byte]).http.receivedBody.toNat =
      view.http.receivedBody.toNat + 1 := by
    have bound := view.http.expectedBody.isLt
    unfold HttpView.missing at last
    simp only [received, BitVec.toNat_add, BitVec.toNat_ofNat, List.length_singleton]
    omega
  have missing : (view.received [byte]).missing = view.missing - 1 := by
    unfold HttpView.missing
    rw [one]
    exact Nat.sub_add_eq _ _ _
  have measured' : (view.received [byte]).http.hasContentLength = true := measured
  have less'' : (view.received [byte]).http.receivedBody <
      (view.received [byte]).http.expectedBody := by
    rw [BitVec.lt_def, one]
    unfold HttpView.missing at last
    exact Nat.lt_of_lt_of_le (by omega) (Nat.le_refl view.http.expectedBody.toNat)
  have short : ¬ view.missing ≤ [byte].length := last
  rw [if_neg short,
    deliver_measured active' measured' less'' (List.cons_ne_nil _ _), missing]
  obtain ⟨more, equal⟩ := Nat.exists_eq_add_of_le' (show 1 ≤ view.missing by omega)
  rw [equal, Nat.add_sub_cancel, List.take_succ_cons, received_received,
    received_received, List.length_cons]
  simp only [Nat.add_le_add_iff_right]
  rfl

theorem byte_body (active : view.http.active = true) (done : view.http.headersDone = true)
    (byte : UInt8) : view.byte byte = view.deliver [byte] := by
  rw [HttpView.byte, if_neg (by simp [active]), if_pos done]

theorem Steady.of_inactive (inactive : view.http.active = false) : view.Steady := by
  constructor
  · intro active
    simp [inactive] at active
  · intro active
    simp [inactive] at active

theorem deliver_byte (steady : view.Steady) (active : view.http.active = true)
    (done : view.http.headersDone = true) (byte : UInt8) :
    (view.deliver [byte] = (view.received [byte]).finish true ∧
        view.http.hasContentLength = true ∧
          view.http.expectedBody.toNat ≤ view.http.receivedBody.toNat + 1) ∨
      (view.deliver [byte] = view.received [byte] ∧
        (view.http.hasContentLength = true →
          view.http.receivedBody.toNat + 1 < view.http.expectedBody.toNat)) := by
  cases measured : view.http.hasContentLength with
  | false =>
      right
      exact ⟨deliver_unmeasured active measured (List.cons_ne_nil _ _), fun yes => by cases yes⟩
  | true =>
  have less := steady.missing active done measured
  have less' : view.http.receivedBody.toNat < view.http.expectedBody.toNat := less
  rw [deliver_measured active measured less (List.cons_ne_nil byte [])]
  unfold HttpView.missing
  by_cases last : view.http.expectedBody.toNat - view.http.receivedBody.toNat ≤ 1
  · have one : view.http.expectedBody.toNat - view.http.receivedBody.toNat = 1 := by omega
    rw [if_pos (by exact last), one]
    exact .inl ⟨rfl, rfl, by omega⟩
  · rw [if_neg (by exact last)]
    exact .inr ⟨rfl, fun _ => by omega⟩

theorem received_count (view : HttpView) (byte : UInt8)
    (small : view.http.receivedBody.toNat + 1 < 2 ^ 32) :
    (view.received [byte]).http.receivedBody.toNat = view.http.receivedBody.toNat + 1 := by
  simp only [received, BitVec.toNat_add, BitVec.toNat_ofNat, List.length_singleton]
  omega

theorem Steady.deliver (steady : view.Steady) (done : view.http.headersDone = true)
    (byte : UInt8) : (view.deliver [byte]).Steady := by
  cases active : view.http.active with
  | false =>
      rw [deliver_inactive active]
      exact steady
  | true =>
  have bound := view.http.expectedBody.isLt
  rcases deliver_byte steady active done byte with ⟨last, _⟩ | ⟨more, missing⟩
  · rw [last]
    exact .of_inactive (finish_active _ _)
  · rw [more]
    constructor
    · intro _ undone
      exact absurd (done.symm.trans undone) (by decide)
    · intro _ _ measured
      have less := missing measured
      rw [BitVec.lt_def, received_count view byte (by omega)]
      exact less

theorem bytes_body (steady : view.Steady) (done : view.http.headersDone = true)
    (data : List UInt8) : data.foldl HttpView.byte view = view.deliver data := by
  induction data generalizing view with
  | nil => exact (deliver_nil view).symm
  | cons byte data ih =>
  cases active : view.http.active with
  | false => rw [bytes_inactive active, deliver_inactive active]
  | true =>
      rw [List.foldl_cons, byte_body active done,
        deliver_cons active (steady.missing active done) byte data]
      exact ih (steady.deliver done byte) ((deliver_head view [byte]).headersDone.trans done)

theorem parseHeaders_keeps (http : Http) :
    (parseHeaders http).2.receivedBody = http.receivedBody ∧
      (parseHeaders http).2.headerBuffer = http.headerBuffer ∧
        (parseHeaders http).2.headersDone = ((parseHeaders http).1 || http.headersDone) := by
  obtain ⟨_, ⟨_, _, _, _, rfl⟩, same⟩ := SetsHead.parseHeaders http
  rw [same]
  exact ⟨rfl, rfl, rfl⟩

/-- The end of a head leaves a steady view. -/
theorem Steady.parse (fresh : view.http.receivedBody = 0) : view.parse.Steady := by
  obtain ⟨received, _, done⟩ := parseHeaders_keeps view.http
  unfold HttpView.parse
  generalize parseHeaders view.http = parsed at received done
  obtain ⟨ok, http⟩ := parsed
  cases ok with
  | false => exact .of_inactive (finish_active _ _)
  | true =>
  dsimp only at received done ⊢
  split
  · exact .of_inactive (finish_active _ _)
  next some_body =>
    constructor
    · intro _ undone
      rw [note_http] at undone
      exact absurd (done.symm.trans undone) (by simp)
    · rw [note_http]
      intro _ _ measured
      dsimp only at measured ⊢
      rw [received, fresh]
      rw [not_and] at some_body
      have filled := some_body measured
      bv_omega

theorem Steady.byte (steady : view.Steady) (byte : UInt8) : (view.byte byte).Steady := by
  unfold HttpView.byte
  split
  · exact steady
  next active =>
  split
  next done => exact steady.deliver done byte
  next undone =>
  have fresh := steady.before (by simpa using active) (by simpa using undone)
  split
  · exact .of_inactive (finish_active _ _)
  dsimp only
  split
  · exact Steady.parse fresh
  · exact ⟨fun _ _ => fresh, fun _ done => absurd done undone⟩

end HttpView

/-- The view after the header loop of `http_on_data` and what follows it. -/
def headView : Bool × Http × List UInt8 → HttpView
  | (false, http, _) => http.view.finish false
  | (true, http, rest) =>
      if http.headersDone ∧ http.hasContentLength ∧ http.expectedBody = 0 then
        http.view.finish true
      else if http.headersDone then http.view.deliver rest
      else http.view

theorem readHeaders_done (key connection : Nat) {http : Http} (done : http.headersDone = true)
    (data : List UInt8) : readHeaders key connection http data = (true, http, data) := by
  cases data with
  | nil => rfl
  | cons byte data => rw [readHeaders, if_pos done]

theorem view_parse (http : Http) :
    http.view.parse =
      match parseHeaders http with
      | (false, after) => after.view.finish false
      | (true, after) =>
          let noted := after.view.note after.headersCallback
            (.headers after.responseStatus after.hasContentLength after.expectedBody)
          if after.hasContentLength ∧ after.expectedBody = 0 then noted.finish true else noted := by
  have plain : parseHeaders http.view.http =
      ((parseHeaders http).1, (parseHeaders http).2.plain) := parseHeaders_plain http
  have records := (SameRequest.parseHeaders http).reports
  rw [HttpView.parse, plain]
  generalize parseHeaders http = parsed at records ⊢
  obtain ⟨ok, after⟩ := parsed
  dsimp only at records
  have outcome : (⟨after.plain, http.view.outcome⟩ : HttpView) = after.view := by
    simp only [Http.view, Http.outcome, records]
  cases ok with
  | false =>
      dsimp only
      rw [outcome]
  | true =>
      dsimp only
      rw [outcome]
      rfl

/-- A byte of the head is stored. -/
def Http.push (http : Http) (byte : UInt8) : Http :=
  { http with headerBuffer := http.headerBuffer ++ [byte] }

section push

variable {http : Http}

theorem byte_head (active : http.active = true) (undone : http.headersDone = false)
    (byte : UInt8) :
    http.view.byte byte =
      if http.headerBuffer.length ≥ httpHeaderMax then http.view.finish false
      else if (crlf ++ crlf).isSuffixOf (http.push byte).headerBuffer then
        (http.push byte).view.parse
      else (http.push byte).view := by
  have there : ¬ (!http.view.http.active) = true := by
    rw [Bool.not_eq_true']
    exact fun gone => absurd (active.symm.trans gone) (by decide)
  have head : ¬ http.view.http.headersDone = true := fun done =>
    absurd (undone.symm.trans done) (by decide)
  rw [HttpView.byte, if_neg there, if_neg head]
  rfl

theorem readHeaders_push (key connection : Nat) (undone : http.headersDone = false)
    (room : ¬ http.headerBuffer.length ≥ httpHeaderMax) (byte : UInt8) (rest : List UInt8) :
    readHeaders key connection http (byte :: rest) =
      if (crlf ++ crlf).isSuffixOf (http.push byte).headerBuffer then
        match parseHeaders (http.push byte) with
        | (false, http) => (false, http, rest)
        | (true, http) =>
            readHeaders key connection
              (http.report http.headersCallback (some key) connection
                (.headers http.responseStatus http.hasContentLength http.expectedBody)) rest
      else readHeaders key connection (http.push byte) rest := by
  have head : ¬ http.headersDone = true := fun done =>
    absurd (undone.symm.trans done) (by decide)
  rw [readHeaders, if_neg head, if_neg room]
  rfl

end push

/-- The header loop takes byte after byte. -/
theorem headView_readHeaders (key connection : Nat) {http : Http} (active : http.active = true)
    (undone : http.headersDone = false) (fresh : http.receivedBody = 0) (data : List UInt8) :
    headView (readHeaders key connection http data) = data.foldl HttpView.byte http.view := by
  induction data generalizing http with
  | nil =>
      rw [readHeaders, headView, if_neg (by simp [undone]), if_neg (by simp [undone])]
      rfl
  | cons byte data ih =>
  rw [List.foldl_cons]
  by_cases full : http.headerBuffer.length ≥ httpHeaderMax
  · have head : ¬ http.headersDone = true := fun done =>
      absurd (undone.symm.trans done) (by decide)
    rw [byte_head active undone, if_pos full, readHeaders, if_neg head, if_pos full,
      HttpView.bytes_inactive (HttpView.finish_active _ _)]
    rfl
  rw [byte_head active undone, if_neg full, readHeaders_push key connection undone full]
  have fresh' : (http.push byte).receivedBody = 0 := fresh
  by_cases ended : (crlf ++ crlf).isSuffixOf (http.push byte).headerBuffer = true
  case neg =>
    rw [if_neg ended, if_neg ended]
    exact ih active undone fresh'
  rw [if_pos ended, if_pos ended]
  have steady : (http.push byte).view.parse.Steady := HttpView.Steady.parse fresh'
  obtain ⟨-, -, done⟩ := HttpView.parseHeaders_keeps (http.push byte)
  rw [view_parse] at steady ⊢
  generalize parseHeaders (http.push byte) = parsed at steady done ⊢
  obtain ⟨ok, after⟩ := parsed
  cases ok with
  | false =>
      dsimp only at steady ⊢
      rw [HttpView.bytes_inactive (HttpView.finish_active _ _)]
      rfl
  | true =>
  dsimp only at steady done ⊢
  rw [Bool.true_or] at done
  rw [← view_report after after.headersCallback (some key) connection] at steady ⊢
  have fields : SameHead after
      (after.report after.headersCallback (some key) connection
        (.headers after.responseStatus after.hasContentLength after.expectedBody)) := by
    cases after.headersCallback <;> exact ⟨rfl, rfl, rfl, rfl⟩
  generalize after.report _ _ _ _ = after' at steady fields ⊢
  have done' : after'.headersDone = true := fields.headersDone.trans done
  rw [readHeaders_done key connection done', headView, fields.hasContentLength,
    fields.expectedBody]
  by_cases empty : after.hasContentLength = true ∧ after.expectedBody = 0
  · rw [if_pos ⟨done', empty⟩, if_pos empty,
      HttpView.bytes_inactive (HttpView.finish_active _ _)]
  · rw [if_neg empty] at steady
    rw [if_neg (fun both => empty both.2), if_neg empty, if_pos done']
    exact (HttpView.bytes_body steady done' data).symm

/-- Feeding a segment is feeding its bytes. -/
theorem view_httpOnData (key : Nat) (data : List UInt8) (world : World Nat Http)
    (steady : world.user.view.Steady) :
    (httpOnData key data world).user.view = data.foldl HttpView.byte world.user.view := by
  rw [httpOnData]
  by_cases gone : (!world.user.active) = true
  · have inactive : world.user.view.http.active = false := by
      rw [Bool.not_eq_true'] at gone
      exact gone
    rw [if_pos gone, HttpView.bytes_inactive inactive]
  have active : world.user.active = true := by
    rw [Bool.not_eq_true, Bool.not_eq_false'] at gone
    exact gone
  rw [if_neg gone]
  dsimp only
  by_cases done : world.user.headersDone = true
  · rw [if_pos done, view_deliverBody, HttpView.bytes_body steady done]
    rfl
  have undone : world.user.headersDone = false := Bool.eq_false_iff.mpr done
  rw [if_neg done]
  have loop : headView (readHeaders key world.tcp.past.length
      { world.user with response := world.user.response ++ data } data) =
      data.foldl HttpView.byte world.user.view :=
    @headView_readHeaders key world.tcp.past.length
      { world.user with response := world.user.response ++ data } active undone
      (steady.before active undone) data
  rw [← loop]
  generalize readHeaders key world.tcp.past.length _ data = result
  obtain ⟨ok, http, rest⟩ := result
  cases ok with
  | false => exact view_finishRequest (some key) false true _
  | true =>
  dsimp only [headView]
  split
  · exact view_finishRequest (some key) true true _
  split
  · exact view_deliverBody key rest _
  · rfl

theorem view_httpOnClosed (key : Nat) (clean : Bool) (world : World Nat Http) :
    (httpOnClosed key clean world).user.view = world.user.view.closed clean := by
  rw [httpOnClosed]
  by_cases gone : (!world.user.active) = true
  · have inactive : world.user.view.http.active = false := by
      rw [Bool.not_eq_true'] at gone
      exact gone
    rw [if_pos gone, HttpView.closed, HttpView.finish_inactive inactive]
  · rw [if_neg gone]
    exact view_finishRequest (some key) _ false world

/-! ## Whole responses -/

/-- The client after a response that has arrived in some segments, up to the end of the
connection. -/
def afterResponse (key : Nat) (clean : Bool) (segments : List (List UInt8))
    (world : World Nat Http) : World Nat Http :=
  httpOnClosed key clean (segments.foldl (fun world segment => httpOnData key segment world) world)

theorem view_segments (key : Nat) (segments : List (List UInt8)) {world : World Nat Http}
    (steady : world.user.view.Steady) :
    (segments.foldl (fun world segment => httpOnData key segment world) world).user.view =
      segments.flatten.foldl HttpView.byte world.user.view := by
  induction segments generalizing world with
  | nil => rfl
  | cons segment segments ih =>
      have first := view_httpOnData key segment world steady
      have steady' : (httpOnData key segment world).user.view.Steady := by
        rw [first]
        exact List.foldlRecOn segment _ steady fun view steady byte _ => steady.byte byte
      rw [List.foldl_cons, ih steady', first, List.flatten_cons, List.foldl_append]

/-- The user of the client sees the bytes and not the segments. -/
theorem view_afterResponse (key : Nat) (clean : Bool) (segments : List (List UInt8))
    {world : World Nat Http} (steady : world.user.view.Steady) :
    (afterResponse key clean segments world).user.view =
      (segments.flatten.foldl HttpView.byte world.user.view).closed clean := by
  rw [afterResponse, view_httpOnClosed, view_segments key segments steady]

/-- The data that is shown to a callback, if there is one. -/
def shown (callback : Option Nat) (data : List UInt8) : List UInt8 :=
  if callback.isSome then data else []

/-- The first head in a stream, and what follows it. -/
structure SplitsAt (head rest stream : List UInt8) : Prop where
  whole : stream = head ++ rest
  ended : (crlf ++ crlf).isSuffixOf head = true
  first : ∀ length < head.length, (crlf ++ crlf).isSuffixOf (head.take length) = false

theorem SplitsAt.append {head rest stream : List UInt8} (splits : SplitsAt head rest stream)
    (byte : UInt8) : SplitsAt head (rest ++ [byte]) (stream ++ [byte]) := by
  constructor
  · rw [splits.whole, List.append_assoc]
  · exact splits.ended
  · exact splits.first

theorem SplitsAt.length_le {head rest stream : List UInt8} (splits : SplitsAt head rest stream)
    {length : Nat} (ended : (crlf ++ crlf).isSuffixOf (stream.take length) = true) :
    head.length ≤ length := by
  by_contra shorter
  rw [splits.whole, List.take_append_of_le_length (by omega), splits.first length (by omega)] at ended
  cases ended

/-- A stream has one first head. -/
theorem SplitsAt.unique {head rest head' rest' stream : List UInt8}
    (splits : SplitsAt head rest stream) (splits' : SplitsAt head' rest' stream) :
    head' = head ∧ rest' = rest := by
  have whole : head' ++ rest' = head ++ rest := splits'.whole.symm.trans splits.whole
  refine List.append_inj whole (Nat.le_antisymm ?_ ?_)
  · apply splits'.length_le
    rw [splits.whole, List.take_left]
    exact splits.ended
  · apply splits.length_le
    rw [splits'.whole, List.take_left]
    exact splits'.ended

/-- The first head of a stream fits into the buffer of the client and is accepted, which makes
the client `parsed`. -/
structure HeadOf (http : Http) (head rest : List UInt8) (parsed : Http) (stream : List UInt8) :
    Prop where
  splits : SplitsAt head rest stream
  short : head.length ≤ httpHeaderMax
  accepted : parseHeaders { http with headerBuffer := head } = (true, parsed)

theorem HeadOf.append {http parsed : Http} {head rest stream : List UInt8}
    (found : HeadOf http head rest parsed stream) (byte : UInt8) :
    HeadOf http head (rest ++ [byte]) parsed (stream ++ [byte]) :=
  ⟨found.splits.append byte, found.short, found.accepted⟩

/-- The part of the bytes after the head that belongs to the body. -/
def bodyData (http : Http) (rest : List UInt8) : List UInt8 :=
  if http.hasContentLength then rest.take http.expectedBody.toNat else rest

namespace HttpView

/-- How far a stream has been taken in by the client `http`. -/
structure Follows (http : Http) (before stream : List UInt8) (view : HttpView) : Prop where
  mine : view.http.active = true → view.http.bodyCallback = http.bodyCallback
  early : view.http.headersDone = false → view.outcome.body = before
  refused : view.http.active = false → view.http.headersDone = false →
    ∀ more head rest parsed, ¬ HeadOf http head rest parsed (stream ++ more)
  head : view.http.active = true → view.http.headersDone = false →
    view.http = { http with headerBuffer := stream } ∧
      ∀ length ≤ stream.length, (crlf ++ crlf).isSuffixOf (stream.take length) = false
  late : view.http.headersDone = true → ∃ rest parsed,
    HeadOf http view.http.headerBuffer rest parsed stream ∧ SameHead parsed view.http ∧
    view.outcome.body = before ++ shown http.bodyCallback (bodyData view.http rest) ∧
      (view.http.active = true → view.http.hasContentLength = true →
        view.http.receivedBody.toNat = rest.length) ∧
        (view.http.active = false →
          view.http.hasContentLength = true ∧ view.http.expectedBody.toNat ≤ rest.length)

variable {view : HttpView} {http : Http} {before stream : List UInt8}

/-- A stream with no head so far has none of its length or less. -/
theorem lt_of_headOf {head rest more : List UInt8} {parsed : Http}
    (open_ : ∀ length ≤ stream.length, (crlf ++ crlf).isSuffixOf (stream.take length) = false)
    (found : HeadOf http head rest parsed (stream ++ more)) : stream.length < head.length := by
  by_contra within
  have cut : (stream ++ more).take head.length = stream.take head.length :=
    List.take_append_of_le_length (by omega)
  have ended := open_ head.length (by omega)
  rw [← cut, found.splits.whole, List.take_left, found.splits.ended] at ended
  cases ended

theorem finish_body (view : HttpView) (success : Bool) :
    (view.finish success).outcome.body = view.outcome.body := by
  unfold finish
  split
  · rfl
  · cases view.http.completeCallback <;> rfl

theorem received_body (view : HttpView) (data : List UInt8) :
    (view.received data).outcome.body =
      view.outcome.body ++ shown view.http.bodyCallback data := by
  unfold received note
  cases view.http.bodyCallback with
  | none => exact (List.append_nil _).symm
  | some _ => rfl

theorem shown_append (callback : Option Nat) (first second : List UInt8) :
    shown callback first ++ shown callback second = shown callback (first ++ second) := by
  cases callback <;> rfl

theorem bodyData_congr {http http' : Http} (same : SameHead http http') (rest : List UInt8) :
    bodyData http' rest = bodyData http rest := by
  rw [bodyData, bodyData, same.hasContentLength, same.expectedBody]

theorem bodyData_short {http : Http} {rest : List UInt8}
    (short : http.hasContentLength = true → rest.length ≤ http.expectedBody.toNat) :
    bodyData http rest = rest := by
  unfold bodyData
  split
  next measured => exact List.take_of_length_le (short measured)
  · rfl

/-- A byte after the head that is still missing. -/
theorem Follows.body (follows : Follows http before stream view) (steady : view.Steady)
    (active : view.http.active = true) (done : view.http.headersDone = true) (byte : UInt8) :
    Follows http before (stream ++ [byte]) (view.deliver [byte]) := by
  obtain ⟨rest, parsed, found, parsedSame, body, counted, -⟩ := follows.late done
  have mine := follows.mine active
  have same := deliver_head view [byte]
  have closed : (view.deliver [byte]).http.headersDone ≠ false := by
    rw [same.headersDone, done]
    decide
  have missing := steady.missing active done
  have shorter : view.http.hasContentLength = true →
      rest.length < view.http.expectedBody.toNat := by
    intro measured
    rw [← counted active measured]
    exact missing measured
  have before_rest : bodyData view.http rest = rest :=
    bodyData_short fun measured => (shorter measured).le
  have after_rest : bodyData (view.deliver [byte]).http (rest ++ [byte]) = rest ++ [byte] := by
    rw [bodyData_congr same]
    apply bodyData_short
    intro measured
    rw [List.length_append]
    exact shorter measured
  have text : view.outcome.body ++ shown view.http.bodyCallback [byte] =
      before ++ shown http.bodyCallback (rest ++ [byte]) := by
    rw [body, before_rest, mine, List.append_assoc, shown_append]
  have found' : HeadOf http (view.deliver [byte]).http.headerBuffer (rest ++ [byte]) parsed
      (stream ++ [byte]) := by
    rw [same.headerBuffer]
    exact found.append byte
  have parsedSame' := parsedSame.trans same
  rcases deliver_byte steady active done byte with ⟨last, measured, full⟩ | ⟨more, open_⟩
  · have gone : (view.deliver [byte]).http.active = false := by
      rw [last]
      exact finish_active _ _
    refine ⟨fun there => ?_, fun undone => absurd undone closed,
      fun _ undone => absurd undone closed, fun _ undone => absurd undone closed,
      fun _ => ⟨rest ++ [byte], parsed, found', parsedSame', ?_, ?_, ?_⟩⟩
    · exact absurd (there.symm.trans gone) (by decide)
    · rw [after_rest, last, finish_body, received_body, text]
    · intro there
      exact absurd (there.symm.trans gone) (by decide)
    · intro _
      rw [same.hasContentLength, same.expectedBody, List.length_append]
      rw [counted active measured] at full
      exact ⟨measured, full⟩
  refine ⟨fun _ => ?_, fun undone => absurd undone closed,
    fun _ undone => absurd undone closed, fun _ undone => absurd undone closed,
    fun _ => ⟨rest ++ [byte], parsed, found', parsedSame', ?_, ?_, ?_⟩⟩
  · rw [more]
    exact mine
  · rw [after_rest, more, received_body, text]
  · intro _ measured
    rw [same.hasContentLength] at measured
    have bound := view.http.expectedBody.isLt
    have less := open_ measured
    rw [more, received_count view byte (by omega), counted active measured, List.length_append]
    rfl
  · intro gone
    rw [more] at gone
    exact absurd (active.symm.trans gone) (by decide)

/-- The end of the head. -/
theorem Follows.parse (active : view.http.active = true) (undone : view.http.headersDone = false)
    (fresh : view.http.receivedBody = 0) (mine : view.http.bodyCallback = http.bodyCallback)
    (body : view.outcome.body = before) (whole : view.http = { http with headerBuffer := stream })
    (short : stream.length ≤ httpHeaderMax) (splits : SplitsAt stream [] stream) :
    Follows http before stream view.parse := by
  obtain ⟨received, buffer, done⟩ := parseHeaders_keeps view.http
  have same := SameRequest.parseHeaders view.http
  have parsed : parseHeaders view.http = parseHeaders { http with headerBuffer := stream } :=
    congrArg parseHeaders whole
  have filled : view.http.headerBuffer = stream := congrArg Http.headerBuffer whole
  unfold HttpView.parse
  generalize parseHeaders view.http = result at received buffer done same parsed
  obtain ⟨ok, after⟩ := result
  rw [filled] at buffer
  have nothing : before ++ shown http.bodyCallback (bodyData after []) = before := by
    have empty : bodyData after [] = [] := by
      unfold bodyData
      split
      · exact List.take_nil
      · rfl
    rw [empty]
    cases http.bodyCallback <;> exact List.append_nil _
  cases ok with
  | false =>
      dsimp only at received buffer done ⊢
      rw [Bool.false_or, undone] at done
      have kept := finish_head { view with http := after } false
      have gone := finish_active { view with http := after } false
      refine ⟨fun there => absurd (there.symm.trans gone) (by decide), fun _ => ?_,
        fun _ _ more head rest http' found => ?_,
        fun there => absurd (there.symm.trans gone) (by decide), fun there => ?_⟩
      · rw [finish_body]
        exact body
      · obtain ⟨rfl, -⟩ := SplitsAt.unique ⟨rfl, splits.ended, splits.first⟩ found.splits
        cases parsed.trans found.accepted
      · rw [kept.headersDone, done] at there
        cases there
  | true =>
  dsimp only at received buffer done same ⊢
  rw [Bool.true_or] at done
  generalize noted : HttpView.note { view with http := after } after.headersCallback _ = view'
  have after' : view'.http = after := by
    rw [← noted, note_http]
  have body' : view'.outcome.body = before := by
    rw [← noted, ← body]
    cases after.headersCallback <;> rfl
  have found : HeadOf http after.headerBuffer [] after stream := by
    rw [buffer]
    exact ⟨splits, short, parsed.symm⟩
  split
  next empty =>
    have kept := finish_head view' true
    have gone := finish_active view' true
    rw [after'] at kept
    refine ⟨fun there => absurd (there.symm.trans gone) (by decide), fun undone' => ?_,
      fun _ undone' => ?_, fun there => absurd (there.symm.trans gone) (by decide),
      fun _ => ⟨[], after, ?_, kept, ?_,
        fun there => absurd (there.symm.trans gone) (by decide), fun _ => ?_⟩⟩
    · rw [kept.headersDone, done] at undone'
      cases undone'
    · rw [kept.headersDone, done] at undone'
      cases undone'
    · rw [kept.headerBuffer]
      exact found
    · rw [finish_body, body', bodyData_congr kept, nothing]
    · rw [kept.hasContentLength, kept.expectedBody]
      rw [empty.2]
      exact ⟨empty.1, Nat.le_refl _⟩
  · rw [← after'] at done
    refine ⟨fun _ => ?_, fun undone' => absurd (done.symm.trans undone') (by decide),
      fun _ undone' => absurd (done.symm.trans undone') (by decide),
      fun _ undone' => absurd (done.symm.trans undone') (by decide),
      fun _ => ⟨[], after, ?_, ?_, ?_, fun _ _ => ?_, fun gone => ?_⟩⟩
    · rw [after', same.bodyCallback]
      exact mine
    · rw [after']
      exact found
    · rw [after']
      exact ⟨rfl, rfl, rfl, rfl⟩
    · rw [body', after', nothing]
    · rw [after', received, fresh]
      rfl
    · rw [after', same.active, active] at gone
      cases gone

theorem Follows.byte (follows : Follows http before stream view) (steady : view.Steady)
    (byte : UInt8) : Follows http before (stream ++ [byte]) (view.byte byte) := by
  cases active : view.http.active with
  | false =>
      rw [byte_inactive active]
      refine ⟨follows.mine, follows.early, fun gone undone more => ?_,
        fun there => absurd (there.symm.trans active) (by decide), fun done => ?_⟩
      · rw [List.append_assoc]
        exact follows.refused gone undone _
      obtain ⟨rest, parsed, found, same, body, -, full⟩ := follows.late done
      obtain ⟨measured, enough⟩ := full active
      refine ⟨rest ++ [byte], parsed, found.append byte, same, ?_,
        fun there => absurd (there.symm.trans active) (by decide),
        fun _ => ⟨measured, Nat.le_trans enough (by simp)⟩⟩
      have cut : bodyData view.http (rest ++ [byte]) = bodyData view.http rest := by
        rw [bodyData, bodyData, if_pos measured, if_pos measured,
          List.take_append_of_le_length enough]
      rw [cut]
      exact body
  | true =>
  cases done : view.http.headersDone with
  | true =>
      rw [byte_body active done]
      exact follows.body steady active done byte
  | false =>
  obtain ⟨whole, open_⟩ := follows.head active done
  have buffer : view.http.headerBuffer = stream := congrArg Http.headerBuffer whole
  have body := follows.early done
  have there : ¬ (!view.http.active) = true := by simp [active]
  have head : ¬ view.http.headersDone = true := by simp [done]
  rw [HttpView.byte, if_neg there, if_neg head, buffer]
  split
  next full =>
    have kept := finish_head view false
    have gone := finish_active view false
    refine ⟨fun there => absurd (there.symm.trans gone) (by decide), fun _ => ?_,
      fun _ _ more head rest parsed found => ?_,
      fun there => absurd (there.symm.trans gone) (by decide), fun done' => ?_⟩
    · rw [finish_body]
      exact body
    · rw [List.append_assoc] at found
      have longer := lt_of_headOf open_ found
      have short := found.short
      omega
    · rw [kept.headersDone, done] at done'
      cases done'
  next room =>
  dsimp only
  have earlier : ∀ length ≤ stream.length,
      (crlf ++ crlf).isSuffixOf ((stream ++ [byte]).take length) = false := by
    intro length within
    rw [List.take_append_of_le_length within]
    exact open_ length within
  have pushed : { view.http with headerBuffer := stream ++ [byte] } =
      { http with headerBuffer := stream ++ [byte] } :=
    congrArg (fun client : Http => { client with headerBuffer := stream ++ [byte] }) whole
  split
  next ended =>
    refine Follows.parse (by exact active) (by exact done) (by exact steady.before active done)
      (by exact follows.mine active) (by exact body) (by exact pushed) ?_ ⟨?_, ended, ?_⟩
    · rw [List.length_append, List.length_singleton]
      omega
    · rw [List.append_nil]
    · intro length shorter
      rw [List.length_append] at shorter
      exact earlier length (Nat.le_of_lt_succ shorter)
  next more =>
    refine ⟨fun _ => follows.mine active, fun _ => body,
      fun gone => absurd (active.symm.trans gone) (by decide), fun _ _ => ⟨pushed, ?_⟩,
      fun done' => absurd (done.symm.trans done') (by decide)⟩
    intro length within
    rw [List.length_append] at within
    rcases Nat.lt_or_eq_of_le within with shorter | all
    · exact earlier length (Nat.le_of_lt_succ shorter)
    · rw [List.take_of_length_le (by rw [List.length_append, all])]
      exact Bool.eq_false_iff.mpr more

theorem Follows.bytes (follows : Follows http before stream view) (steady : view.Steady)
    (data : List UInt8) :
    Follows http before (stream ++ data) (data.foldl HttpView.byte view) := by
  induction data generalizing stream view with
  | nil =>
      rw [List.append_nil]
      exact follows
  | cons byte data ih =>
      rw [List.append_cons]
      exact ih (follows.byte steady byte) (steady.byte byte)

end HttpView

/-- A request that waits for the first byte of the head. -/
structure AwaitsHead (http : Http) : Prop where
  headerBuffer : http.headerBuffer = []
  headersDone : http.headersDone = false
  hasContentLength : http.hasContentLength = false
  chunkedEncoding : http.chunkedEncoding = false

/-- A request that has been made and has not received anything. -/
structure FreshRequest (http : Http) : Prop extends AwaitsHead http where
  active : http.active = true
  receivedBody : http.receivedBody = 0

theorem netHttpGet_fresh {request : HttpRequest} {world : World Nat Http}
    (made : (netHttpGet request world).1 = true) :
    FreshRequest (netHttpGet request world).2.user := by
  rw [netHttpGet] at made ⊢
  split at made
  · cases made
  next free =>
    rw [if_neg free]
    dsimp only at made ⊢
    rcases Tracks.netDnsQuery_cases _ request.hostname _ with failed | ⟨dns, asked, -⟩
    · rw [failed] at made
      cases made
    · rw [asked]
      exact ⟨⟨rfl, rfl, rfl, rfl⟩, rfl, rfl⟩

/-- What the callback for the body has been given of a stream: what follows the first head, up
to the length that the head tells, and nothing of a stream without an acceptable head. -/
structure ShowsBody (before after : Http) (stream : List UInt8) : Prop where
  body : ∀ head rest parsed, HeadOf before head rest parsed stream →
    after.outcome.body = before.outcome.body ++ shown before.bodyCallback (bodyData parsed rest)
  nothing : (∀ head rest parsed, ¬ HeadOf before head rest parsed stream) →
    after.outcome.body = before.outcome.body

theorem HeadOf.plain {http parsed : Http} {head rest stream : List UInt8}
    (found : HeadOf http head rest parsed stream) :
    HeadOf http.plain head rest parsed.plain stream := by
  refine ⟨found.splits, found.short, ?_⟩
  have parse := parseHeaders_plain { http with headerBuffer := head }
  rw [found.accepted] at parse
  exact parse

/-- The records of a client do not matter for its heads. -/
theorem HeadOf.of_plain {http parsed : Http} {head rest stream : List UInt8}
    (found : HeadOf http.plain head rest parsed stream) :
    ∃ parsed', HeadOf http head rest parsed' stream := by
  have parse := parseHeaders_plain { http with headerBuffer := head }
  refine ⟨_, found.splits, found.short, Prod.ext ?_ rfl⟩
  have accepted : parseHeaders { http with headerBuffer := head }.plain = (true, parsed) :=
    found.accepted
  rw [parse] at accepted
  exact (Prod.mk.inj accepted).1

/-- The user sees the same for every way in which a response is cut into segments, and the
body is what follows the head, up to the length that is known. -/
theorem http_segments {world : World Nat Http} (fresh : FreshRequest world.user) (key : Nat)
    (clean : Bool) {segments segments' : List (List UInt8)}
    (same : segments.flatten = segments'.flatten) :
    (afterResponse key clean segments world).user.outcome =
        (afterResponse key clean segments' world).user.outcome ∧
      ShowsBody world.user (afterResponse key clean segments world).user segments.flatten := by
  have steady : world.user.view.Steady := by
    constructor
    · exact fun _ _ => fresh.receivedBody
    · exact fun _ done => absurd (fresh.headersDone.symm.trans done) (by decide)
  have start : HttpView.Follows world.user.plain world.user.outcome.body [] world.user.view := by
    have buffer := fresh.headerBuffer
    refine ⟨fun _ => rfl, fun _ => rfl,
      fun gone => absurd (fresh.active.symm.trans gone) (by decide), fun _ _ => ⟨?_, ?_⟩,
      fun done => absurd (fresh.headersDone.symm.trans done) (by decide)⟩
    · rw [Http.view, Http.plain, ← buffer]
    · intro length _
      rw [List.take_nil]
      decide
  have view := view_afterResponse key clean segments steady
  have view' := view_afterResponse key clean segments' steady
  rw [← same] at view'
  refine ⟨congrArg HttpView.outcome (view.trans view'.symm), ?_⟩
  have follows := start.bytes steady segments.flatten
  rw [List.nil_append] at follows
  generalize segments.flatten.foldl HttpView.byte world.user.view = before at view follows
  generalize (afterResponse key clean segments world).user = after at view
  have body : after.outcome.body = before.outcome.body := by
    have shown := congrArg (fun view => view.outcome.body) view
    exact shown.trans (HttpView.finish_body _ _)
  cases done : before.http.headersDone with
  | false =>
      refine ⟨fun head rest parsed found => ?_, fun _ => body.trans (follows.early done)⟩
      have found : HeadOf world.user.plain head rest parsed.plain (segments.flatten ++ []) := by
        rw [List.append_nil]
        exact found.plain
      cases active : before.http.active with
      | false => exact absurd found (follows.refused active done _ _ _ _)
      | true =>
          have longer := HttpView.lt_of_headOf (follows.head active done).2 found
          have whole := congrArg List.length found.splits.whole
          simp only [List.append_nil, List.length_append] at whole
          omega
  | true =>
  obtain ⟨rest, parsed, found, kept, text, -, -⟩ := follows.late done
  constructor
  · intro head' rest' parsed' found'
    obtain ⟨rfl, rfl⟩ := found.splits.unique found'.splits
    have same : parsed'.plain = parsed := by
      have equal := found'.plain.accepted.symm.trans found.accepted
      exact (Prod.mk.inj equal).2
    rw [body, text, HttpView.bodyData_congr kept, ← same]
    rfl
  · intro none
    obtain ⟨parsed', found'⟩ := found.of_plain
    exact absurd found' (none _ _ _)

/-- A request of the client whose callbacks are all given. -/
def requestWorld : World Nat Http :=
  { httpWorld with
    user := { Http.initial with
      active := true
      headersCallback := some 1
      bodyCallback := some 1
      completeCallback := some 1
      number := 1 } }

/-- A head in three segments, the last of which goes on with the body, and the same in one. -/
theorem http_segments_page :
    (afterResponse 1 true [pageHeaders.take 5, pageHeaders.drop 5 ++ ascii "ab", ascii "c"]
        requestWorld).user.outcome =
        (afterResponse 1 true [pageHeaders ++ ascii "abc"] requestWorld).user.outcome ∧
      (afterResponse 1 true [pageHeaders ++ ascii "abc"] requestWorld).user.outcome.body =
        ascii "abc" ∧
      ShowsBody requestWorld.user
        (afterResponse 1 true [pageHeaders.take 5, pageHeaders.drop 5 ++ ascii "ab", ascii "c"]
          requestWorld).user
        [pageHeaders.take 5, pageHeaders.drop 5 ++ ascii "ab", ascii "c"].flatten := by
  obtain ⟨same, body⟩ := @http_segments requestWorld ⟨⟨rfl, rfl, rfl, rfl⟩, rfl, rfl⟩ 1 true
    [pageHeaders.take 5, pageHeaders.drop 5 ++ ascii "ab", ascii "c"] [pageHeaders ++ ascii "abc"]
    (by decide)
  exact ⟨same, by decide +kernel, body⟩

end Charis.Net
