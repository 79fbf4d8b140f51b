import Charis.Net.DnsNames
import Charis.Net.HttpHeads
import Charis.Net.HttpRules

/-!
# The text of a request

`net_http_get` checks the path and leaves the host name to the resolver, which encodes
nothing but letters, digits, hyphens and dots.  What passes both checks has no byte that
could end a line or a word of the request, so every request that is sent is one request,
and it tells which host and path it is for.
-/

namespace Charis.Net

open Charis.Lib

/-- `net_http_get` accepts the host name and the path in some state. -/
def Accepted (host path : List UInt8) : Prop :=
  ∃ request world, request.hostname = host ∧ request.path = path ∧
    (netHttpGet request world).1 = true

/-- Bytes that end a line or a word. -/
def isSeparator (byte : UInt8) : Bool := byte = 0x0D || byte = 0x0A || byte = 0x20

/-- What is known of the arguments of an accepted request. -/
structure Requestable (host path : List UInt8) : Prop where
  hostLength : host.length ≤ httpHostMax
  pathLength : path.length ≤ httpPathMax
  hostFilled : host ≠ []
  pathFilled : path ≠ []
  hostWord : ∀ byte ∈ host, isSeparator byte = false
  pathWord : ∀ byte ∈ path, isSeparator byte = false

theorem HostName.word {host : List UInt8} {labels : List (List UInt8)}
    (name : HostName host labels) : ∀ byte ∈ host, isSeparator byte = false := by
  have alphabet : hostAlphabet.all (fun byte => !isSeparator byte) = true := by decide
  simp only [List.all_eq_true, Bool.not_eq_true'] at alphabet
  have joined : ∀ labels : List (List UInt8), (∀ label ∈ labels, HostLabel label) →
      ∀ byte ∈ [0x2E].intercalate labels, isSeparator byte = false := by
    intro labels all
    induction labels with
    | nil =>
        intro byte member
        cases member
    | cons label labels ih =>
    have first : ∀ byte ∈ label, isSeparator byte = false := fun byte member =>
      alphabet byte ((all label (by simp)).characters byte member)
    cases labels with
    | nil => simpa using first
    | cons next labels =>
        have rest := ih fun label member => all label (List.mem_cons_of_mem _ member)
        rw [List.intercalate_cons_cons, List.forall_mem_append, List.forall_mem_append]
        exact ⟨⟨first, by simp [isSeparator]⟩, rest⟩
  rw [name.text]
  exact joined labels name.all

/-- The resolver's own check of the host name. -/
theorem netDnsQuery_named {κ σ : Type} {world : World κ σ} {hostname : List UInt8} {key : κ}
    (asked : (netDnsQuery world hostname key).1 = true) : ∃ labels, HostName hostname labels := by
  simp only [netDnsQuery] at asked
  split at asked
  · cases asked
  split at asked
  · cases asked
  next encoded found =>
  obtain ⟨labels, name, -⟩ := encodeHostname_eq_some.mp found
  exact ⟨labels, name⟩

theorem netHttpGet_accepted {request : HttpRequest} {world : World Nat Http}
    (made : (netHttpGet request world).1 = true) :
    Requestable request.hostname request.path ∧
      (netHttpGet request world).2.user.requestHost = request.hostname ∧
      (netHttpGet request world).2.user.requestPath = request.path := by
  rw [netHttpGet] at made ⊢
  split at made
  · cases made
  next free =>
  rw [if_neg free]
  simp only [not_or, Bool.not_eq_true', Bool.not_eq_false, HttpRequest.valid, Bool.and_eq_true,
    decide_eq_true_eq, List.all_eq_true] at free
  obtain ⟨-, ⟨⟨⟨⟨slash, -⟩, filled⟩, hostLength⟩, pathLength⟩, printable⟩ := free
  dsimp only at made ⊢
  rcases Tracks.netDnsQuery_cases _ request.hostname _ with failed | ⟨dns, asked, -⟩
  · rw [failed] at made
    cases made
  obtain ⟨labels, name⟩ := netDnsQuery_named (congrArg Prod.fst asked)
  rw [asked]
  refine ⟨?_, rfl, rfl⟩
  exact {
    hostLength := hostLength
    pathLength := pathLength
    hostFilled := by simpa using filled
    pathFilled := by
      intro empty
      rw [empty] at slash
      cases slash
    hostWord := name.word
    pathWord := by
      intro byte member
      have high := UInt8.le_iff_toNat_le.mp (printable byte member)
      have low : (0x21 : UInt8).toNat = 33 := rfl
      simp only [isSeparator, Bool.or_eq_false_iff, decide_eq_false_iff_not]
      refine ⟨⟨?_, ?_⟩, ?_⟩
      all_goals
        rintro rfl
        revert high
        decide }

theorem Accepted.requestable {host path : List UInt8} (accepted : Accepted host path) :
    Requestable host path := by
  obtain ⟨request, world, rfl, rfl, made⟩ := accepted
  exact (netHttpGet_accepted made).1

/-- The text for a host and a path. -/
def requestTemplate (host path : List UInt8) : List UInt8 :=
  ascii "GET " ++ path ++ ascii " HTTP/1.0\r\nHost: " ++ host ++
    ascii "\r\nUser-Agent: CharisOS/1.0\r\nAccept: */*\r\nConnection: close\r\n\r\n"

/-- A text is one request: its lines are those of the template, and the host and the path
are words within their lines. -/
structure OneRequest (host path text : List UInt8) : Prop where
  lines : text = withEnds [ascii "GET " ++ path ++ ascii " HTTP/1.0", ascii "Host: " ++ host,
    ascii "User-Agent: CharisOS/1.0", ascii "Accept: */*", ascii "Connection: close", []]
  hostWord : host ≠ [] ∧ ∀ byte ∈ host, isSeparator byte = false
  pathWord : path ≠ [] ∧ ∀ byte ∈ path, isSeparator byte = false
  separators : text.filter isSeparator = (requestTemplate [] []).filter isSeparator
  buffer : text.length < httpRequestMax
  segment : text.length ≤ tcpSegmentCap

theorem length_requestTemplate (host path : List UInt8) :
    (requestTemplate host path).length = host.length + path.length + 83 := by
  simp only [requestTemplate, List.length_append]
  have texts : (ascii "GET ").length + (ascii " HTTP/1.0\r\nHost: ").length +
      (ascii "\r\nUser-Agent: CharisOS/1.0\r\nAccept: */*\r\nConnection: close\r\n\r\n").length =
        83 := by
    decide
  omega

theorem requestTemplate_fits {host path : List UInt8} (requestable : Requestable host path) :
    (requestTemplate host path).length < httpRequestMax := by
  have hostLength := requestable.hostLength
  have pathLength := requestable.pathLength
  simp only [httpHostMax, httpPathMax] at hostLength pathLength
  rw [length_requestTemplate]
  change _ < 1024
  omega

theorem requestTemplate_oneRequest {host path : List UInt8} (requestable : Requestable host path) :
    OneRequest host path (requestTemplate host path) := by
  have fits := requestTemplate_fits requestable
  exact {
    lines := by
      have middle : ascii " HTTP/1.0\r\nHost: " =
          ascii " HTTP/1.0" ++ (crlf ++ ascii "Host: ") := by
        decide
      have trailer :
          ascii "\r\nUser-Agent: CharisOS/1.0\r\nAccept: */*\r\nConnection: close\r\n\r\n" =
            crlf ++ (ascii "User-Agent: CharisOS/1.0" ++ (crlf ++ (ascii "Accept: */*" ++
              (crlf ++ (ascii "Connection: close" ++ (crlf ++ crlf)))))) := by
        decide
      rw [requestTemplate, middle, trailer]
      simp only [withEnds, List.flatMap_cons, List.flatMap_nil, List.append_assoc,
        List.append_nil, List.nil_append]
    hostWord := ⟨requestable.hostFilled, requestable.hostWord⟩
    pathWord := ⟨requestable.pathFilled, requestable.pathWord⟩
    separators := by
      have noHost : host.filter isSeparator = [] :=
        List.filter_eq_nil_iff.mpr fun byte member => by simp [requestable.hostWord byte member]
      have noPath : path.filter isSeparator = [] :=
        List.filter_eq_nil_iff.mpr fun byte member => by simp [requestable.pathWord byte member]
      simp only [requestTemplate, List.filter_append, noHost, noPath, List.filter_nil]
    buffer := fits
    segment := Nat.le_of_lt (fits.trans (by decide)) }

/-- Up to the first space, and from there on, two texts agree part by part. -/
theorem split_word {word word' rest rest' : List UInt8}
    (free : ∀ byte ∈ word, isSeparator byte = false)
    (free' : ∀ byte ∈ word', isSeparator byte = false) {byte : UInt8}
    (separator : isSeparator byte = true)
    (same : word ++ byte :: rest = word' ++ byte :: rest') : word = word' ∧ rest = rest' := by
  have front {word rest : List UInt8} (free : ∀ byte ∈ word, isSeparator byte = false) :
      (word ++ byte :: rest).takeWhile (!isSeparator ·) = word := by
    rw [List.takeWhile_append_of_pos fun other member => by simp [free other member]]
    simp [separator]
  have words := congrArg (List.takeWhile (!isSeparator ·)) same
  rw [front free, front free'] at words
  subst words
  exact ⟨rfl, (List.cons.inj (List.append_cancel_left same)).2⟩

/-- The text tells the host and the path. -/
theorem requestTemplate_injective {host path host' path' : List UInt8}
    (requestable : Requestable host path) (requestable' : Requestable host' path')
    (same : requestTemplate host path = requestTemplate host' path') :
    host = host' ∧ path = path' := by
  simp only [requestTemplate, List.append_assoc] at same
  have afterGet := List.append_cancel_left same
  obtain ⟨paths, afterPath⟩ := @split_word _ _ _ _ requestable.pathWord requestable'.pathWord 0x20
    rfl afterGet
  have afterVersion : ascii "HTTP/1.0\r\nHost: " ++ (host ++ _) =
      ascii "HTTP/1.0\r\nHost: " ++ (host' ++ _) := afterPath
  obtain ⟨hosts, -⟩ := @split_word _ _ _ _ requestable.hostWord requestable'.hostWord 0x0D rfl
    (List.append_cancel_left afterVersion)
  exact ⟨hosts, paths⟩

/-- The request has the same target, and no other one has become active. -/
structure SameTarget (before after : Http) : Prop where
  host : after.requestHost = before.requestHost
  path : after.requestPath = before.requestPath
  active : after.active = true → before.active = true

namespace SameTarget

theorem refl (http : Http) : SameTarget http http := ⟨rfl, rfl, id⟩

theorem trans {before middle after : Http} (first : SameTarget before middle)
    (second : SameTarget middle after) : SameTarget before after :=
  ⟨second.host.trans first.host, second.path.trans first.path,
    fun active => first.active (second.active active)⟩

theorem parseHeaders (http : Http) : SameTarget http (parseHeaders http).2 := by
  obtain ⟨_, ⟨_, _, _, _, rfl⟩, same⟩ := SetsHead.parseHeaders http
  rw [same]
  exact ⟨rfl, rfl, id⟩

theorem report (http : Http) (callback cause : Option Nat) (connection : Nat)
    (call : HttpCall) : SameTarget http (http.report callback cause connection call) := by
  simp only [Http.report]
  split
  · exact .refl http
  · exact ⟨rfl, rfl, id⟩

theorem readHeaders (key connection : Nat) (http : Http) (data : List UInt8) :
    SameTarget http (readHeaders key connection http data).2.1 := by
  induction data generalizing http with
  | nil => exact .refl http
  | cons byte data ih =>
  simp only [Net.readHeaders]
  split
  · exact .refl http
  split
  · exact .refl http
  have pushed : SameTarget http { http with headerBuffer := http.headerBuffer ++ [byte] } :=
    ⟨rfl, rfl, id⟩
  split
  · have parsed := pushed.trans (parseHeaders _)
    generalize Net.parseHeaders _ = result at parsed ⊢
    obtain ⟨ok, after⟩ := result
    cases ok with
    | false => exact parsed
    | true => exact (parsed.trans (report _ _ _ _ _)).trans (ih _)
  · exact pushed.trans (ih _)

variable (world : World Nat Http)

theorem finishRequest (cause : Option Nat) (success closeTcp : Bool) :
    SameTarget world.user (finishRequest cause success closeTcp world).user := by
  cases active : world.user.active with
  | false =>
      rw [finishRequest_of_inactive cause success closeTcp active]
      exact .refl _
  | true =>
      obtain ⟨connection, user⟩ := finishRequest_user cause success closeTcp active
      have ended : SameTarget world.user world.user.ended := ⟨rfl, rfl, fun _ => active⟩
      rw [user]
      exact ended.trans (report _ _ _ _ _)

theorem deliverBody (key : Nat) (data : List UInt8) :
    SameTarget world.user (deliverBody key data world).user := by
  simp only [Net.deliverBody]
  split
  · exact .refl _
  generalize noted : (if (bodyPart world.user data).length = 0 then world.user else _) = http
  have same : SameTarget world.user http := by
    rw [← noted]
    split
    · exact .refl _
    · exact report _ _ _ _ _
  have counted (count : BitVec 32) :
      SameTarget world.user { http with receivedBody := http.receivedBody + count } :=
    same.trans ⟨rfl, rfl, id⟩
  split
  · exact (counted _).trans (finishRequest { world with user := _ } _ _ _)
  · exact counted _

theorem httpOnData (key : Nat) (data : List UInt8) :
    SameTarget world.user (httpOnData key data world).user := by
  have noted : SameTarget world.user
      { world.user with response := world.user.response ++ data } := ⟨rfl, rfl, id⟩
  simp only [Net.httpOnData]
  split
  · exact .refl _
  split
  · exact noted.trans (deliverBody { world with user := _ } key data)
  have read := noted.trans (readHeaders key world.tcp.past.length _ data)
  generalize Net.readHeaders _ _ _ _ = result at read ⊢
  obtain ⟨ok, http, rest⟩ := result
  cases ok with
  | false => exact read.trans (finishRequest { world with user := http } _ _ _)
  | true =>
  simp only
  split
  · exact read.trans (finishRequest { world with user := http } _ _ _)
  split
  · exact read.trans (deliverBody { world with user := http } key rest)
  · exact read

theorem httpOnConnect (key : Nat) (connected : Bool) :
    SameTarget world.user (httpOnConnect key connected world).user := by
  simp only [Net.httpOnConnect]
  split
  · exact .refl _
  split
  · exact finishRequest world _ _ _
  split
  · exact finishRequest world _ _ _
  next text _ =>
  have rest := (Tracks.netTcpSend_rest world text).2
  generalize netTcpSend world text = sent at rest ⊢
  obtain ⟨result, after⟩ := sent
  cases result with
  | failed => exact rest ▸ finishRequest after _ _ _
  | done _ => exact rest ▸ .refl _
  | resolving => exact rest ▸ .refl _

theorem httpOnClosed (key : Nat) (clean : Bool) :
    SameTarget world.user (httpOnClosed key clean world).user := by
  simp only [Net.httpOnClosed]
  split
  · exact .refl _
  · exact finishRequest world _ _ _

theorem httpOnDns (key : Nat) (ip : Ipv4) (success : Bool) :
    SameTarget world.user (httpOnDns key ip success world).user := by
  simp only [Net.httpOnDns]
  split
  · exact .refl _
  split
  · exact finishRequest world _ _ _
  have rest := netTcpConnect_user world ip 80 key (some key) (some key)
  generalize netTcpConnect world ip 80 key (some key) (some key) = connected at rest ⊢
  obtain ⟨ok, after⟩ := connected
  cases ok with
  | false => exact rest ▸ finishRequest after _ _ _
  | true => exact rest ▸ .refl _

end SameTarget

/-- The active request was accepted by `net_http_get`. -/
def Asked (http : Http) : Prop :=
  http.active = true → Accepted http.requestHost http.requestPath

theorem Asked.of_same {before after : Http} (asked : Asked before)
    (same : SameTarget before after) : Asked after := by
  intro active
  rw [same.host, same.path]
  exact asked (same.active active)

theorem clientKeeps_asked : ClientKeeps Asked := by
  intro world event asked
  cases event with
  | get request =>
      cases made : (netHttpGet request world).1 with
      | true =>
          obtain ⟨-, host, path⟩ := netHttpGet_accepted made
          intro _
          exact ⟨request, world, host.symm, path.symm, made⟩
      | false =>
      simp only [clientAfter]
      rw [netHttpGet] at made ⊢
      split at made
      · next busy =>
          rw [if_pos busy]
          exact asked
      next free =>
      rw [if_neg free]
      dsimp only at made ⊢
      rcases Tracks.netDnsQuery_cases _ request.hostname _ with failed | ⟨dns, query, -⟩
      · rw [failed]
        intro active
        cases active
      · rw [query] at made
        cases made
  | cancel => exact asked.of_same (.finishRequest world _ _ _)
  | dns key ip success => exact asked.of_same (.httpOnDns world key ip success)
  | connect key connected => exact asked.of_same (.httpOnConnect world key connected)
  | data key bytes => exact asked.of_same (.httpOnData world key bytes)
  | closed key clean => exact asked.of_same (.httpOnClosed world key clean)
  | other stack tcp dns => exact asked

/-- What `http_on_connect` does with the text once it has it. -/
def sendText (key : Nat) (text : List UInt8) (world : World Nat Http) : World Nat Http :=
  match netTcpSend world text with
  | (.failed, world) => finishRequest (some key) false true world
  | (_, world) => world

theorem requestText_eq {http : Http} (requestable : Requestable http.requestHost http.requestPath) :
    requestText http = some (requestTemplate http.requestHost http.requestPath) := by
  have fits := requestTemplate_fits requestable
  exact if_neg (Nat.not_le.mpr fits)

/-- What is sent for an active request is the template for an accepted host and path. -/
structure SendsRequest (world : World Nat Http) : Prop where
  accepted : Accepted world.user.requestHost world.user.requestPath
  text : requestText world.user =
    some (requestTemplate world.user.requestHost world.user.requestPath)
  sends : ∀ key, httpOnConnect key true world =
    sendText key (requestTemplate world.user.requestHost world.user.requestPath) world

theorem Asked.sendsRequest {world : World Nat Http} (asked : Asked world.user)
    (active : world.user.active = true) : SendsRequest world where
  accepted := asked active
  text := requestText_eq (asked active).requestable
  sends := by
    intro key
    simp only [httpOnConnect, active, Bool.not_true, Bool.false_eq_true, ↓reduceIte,
      requestText_eq (asked active).requestable]
    rfl

/-- For every host and path that are accepted, the text is one request that fits into the
buffer and into one segment; a different host or path has a different text.  In every run
of the client, whatever the rest of the network code does, and in every run of the network
code, what is sent when the connection opens is the text for a host and a path that were
accepted. -/
theorem http_request_text {host path : List UInt8} (accepted : Accepted host path) :
    OneRequest host path (requestTemplate host path) ∧
      (∀ request world, (netHttpGet request world).1 = true →
        requestText (netHttpGet request world).2.user =
          some (requestTemplate request.hostname request.path)) ∧
      (∀ host' path', Accepted host' path' →
        requestTemplate host path = requestTemplate host' path' → host = host' ∧ path = path') ∧
      (∀ start finish events, start.user = Http.initial → Run ClientStep start events finish →
        finish.user.active = true → SendsRequest finish) ∧
      (∀ start finish events, start.user = Http.initial → Run HttpStep start events finish →
        finish.user.active = true → SendsRequest finish) := by
  have initially {start : World Nat Http} (fresh : start.user = Http.initial) :
      Asked start.user := by
    rw [fresh]
    intro active
    cases active
  refine ⟨requestTemplate_oneRequest accepted.requestable, fun request world made => ?_,
    fun host' path' accepted' => ?_, fun start finish events fresh run => ?_,
    fun start finish events fresh run => ?_⟩
  · obtain ⟨requestable, named, placed⟩ := netHttpGet_accepted made
    rw [← named, ← placed] at requestable ⊢
    exact requestText_eq requestable
  · exact requestTemplate_injective accepted.requestable accepted'.requestable
  · exact (clientKeeps_asked.run run (initially fresh)).sendsRequest
  · exact (clientKeeps_asked.runHttp run (initially fresh)).sendsRequest

/-- The general statement at a request for a start page. -/
theorem http_request_text_page :
    OneRequest [0x61] (ascii "/") (requestTemplate [0x61] (ascii "/")) ∧
      requestTemplate [0x61] (ascii "/") ≠ requestTemplate [0x62] (ascii "/") := by
  have ready : (netHttpGet (pageRequest 0x61) (httpAfter httpWorld .dnsInit)).1 = true ∧
      (netHttpGet (pageRequest 0x62) (httpAfter httpWorld .dnsInit)).1 = true := by
    decide +kernel
  have first : Accepted [0x61] (ascii "/") := ⟨pageRequest 0x61, _, rfl, rfl, ready.1⟩
  have second : Accepted [0x62] (ascii "/") := ⟨pageRequest 0x62, _, rfl, rfl, ready.2⟩
  have general := http_request_text first
  refine ⟨general.1, fun same => ?_⟩
  exact absurd (general.2.2.1 _ _ second same).1 (by decide)

end Charis.Net
