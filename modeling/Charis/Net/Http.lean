import Charis.Net.Input

/-!
# The HTTP client

One request at a time over the resolver and the TCP client.  The callbacks of a request
belong to its user, who does not call the network code from them; their calls are
recorded.  Requests are numbered, and the number of the request that registers a
callback with the resolver or the TCP client goes with it as its key.
-/

namespace Charis.Net

/-- `HTTP_HOST_MAX`. -/
abbrev httpHostMax : Nat := 253

/-- `HTTP_PATH_MAX`. -/
abbrev httpPathMax : Nat := 512

/-- `HTTP_HEADER_MAX`. -/
abbrev httpHeaderMax : Nat := 2048

/-- `HTTP_REQUEST_MAX`. -/
abbrev httpRequestMax : Nat := 1024

/-- A call of one of the callbacks of a request. -/
inductive HttpCall where
  | headers (status : BitVec 16) (hasContentLength : Bool) (contentLength : BitVec 32)
  | body (data : List UInt8)
  | complete (success : Bool)
  deriving DecidableEq

/-- Record of a call: the request that the callback belongs to, the request whose lookup
or connection it comes from, if it comes from one, the number of the current connection,
whether the response has a `Content-Length`, and what has been received for the
request. -/
structure HttpReport where
  owner : Nat
  cause : Option Nat
  connection : Nat
  measured : Bool
  response : List UInt8
  call : HttpCall
  deriving DecidableEq

/-- The static data of `http.c`, with the number of the last request, the bytes that were
received for it and the record of all calls.  A callback is the number of the request it
belongs to. -/
structure Http where
  active : Bool
  headersDone : Bool
  hasContentLength : Bool
  chunkedEncoding : Bool
  responseStatus : BitVec 16
  expectedBody : BitVec 32
  receivedBody : BitVec 32
  requestHost : List UInt8
  requestPath : List UInt8
  headerBuffer : List UInt8
  headersCallback : Option Nat
  bodyCallback : Option Nat
  completeCallback : Option Nat
  number : Nat
  response : List UInt8
  reports : List HttpReport

/-- The data of `http.c` before any call. -/
def Http.initial : Http where
  active := false
  headersDone := false
  hasContentLength := false
  chunkedEncoding := false
  responseStatus := 0
  expectedBody := 0
  receivedBody := 0
  requestHost := []
  requestPath := []
  headerBuffer := []
  headersCallback := none
  bodyCallback := none
  completeCallback := none
  number := 0
  response := []
  reports := []

/-- `kstrstr`: the offset of the first occurrence of a text. -/
def kstrstr (needle : List UInt8) : List UInt8 → Option Nat
  | [] => none
  | byte :: rest =>
      if needle.isPrefixOf (byte :: rest) then some 0
      else (kstrstr needle rest).map (· + 1)

/-- A letter in lower case. -/
def lowerCase (byte : UInt8) : UInt8 :=
  if 0x41 ≤ byte ∧ byte ≤ 0x5A then byte - 0x41 + 0x61 else byte

/-- `ascii_equal`: equality up to the case of letters. -/
def asciiEqual (text : List UInt8) (name : String) : Bool :=
  text.map lowerCase = (ascii name).map lowerCase

/-- The digits of a number of at most 32 bits. -/
def parseDigits (result : Nat) : List UInt8 → Option Nat
  | [] => some result
  | byte :: rest =>
      if !isDigit byte then none
      else
        let digit := byte.toNat - 0x30
        if result > (0xFFFFFFFF - digit) / 10 then none
        else parseDigits (result * 10 + digit) rest

/-- `parse_decimal`. -/
def parseDecimal (value : List UInt8) : Option (BitVec 32) :=
  if value.length = 0 then none else (parseDigits 0 value).map (BitVec.ofNat 32)

/-- The end of a line. -/
abbrev crlf : List UInt8 := [0x0D, 0x0A]

/-- What `parse_headers` does with one header; nothing if it is not acceptable. -/
def parseField (http : Http) (name value : List UInt8) : Option Http :=
  if asciiEqual name "content-length" then
    match parseDecimal value with
    | none => none
    | some parsed =>
        if http.hasContentLength ∧ parsed ≠ http.expectedBody then none
        else some { http with hasContentLength := true, expectedBody := parsed }
  else if asciiEqual name "transfer-encoding" then
    if asciiEqual value "chunked" then some { http with chunkedEncoding := true } else some http
  else some http

/-- The header loop of `parse_headers`, from the offset `line` of a line on.  Every line
takes at least two bytes of the text. -/
def parseFields (text : List UInt8) (headersEnd : Nat) :
    (steps line : Nat) → Http → Bool × Http
  | 0, _, http => (false, http)
  | steps + 1, line, http =>
      if line ≥ headersEnd then (true, http)
      else
        match kstrstr crlf (text.drop line) with
        | none => (false, http)
        | some length =>
            if line + length > headersEnd then (false, http)
            else
              let content := (text.drop line).take length
              let name := content.takeWhile (· ≠ 0x3A)
              let value := (content.drop (name.length + 1)).dropWhile fun byte =>
                byte = 0x20 ∨ byte = 0x09
              if name.length = 0 ∨ name.length = content.length then (false, http)
              else
                match parseField http name value with
                | none => (false, http)
                | some http => parseFields text headersEnd steps (line + length + 2) http

/-- `parse_headers` without the call of the callback.  The text ends at the first zero
byte. -/
def parseHeaders (http : Http) : Bool × Http :=
  let text := http.headerBuffer.takeWhile (· ≠ 0)
  match kstrstr crlf text with
  | none => (false, http)
  | some lineEnd =>
      if lineEnd < 12 ∨ text.take 5 ≠ ascii "HTTP/" then (false, http)
      else
        match kstrstr (ascii " ") text with
        | none => (false, http)
        | some space =>
            let digits := (text.drop (space + 1)).take 3
            if space + 4 > lineEnd ∨ !digits.all isDigit then (false, http)
            else
              let status := digits.foldl (fun status byte => status * 10 + (byte.toNat - 0x30)) 0
              let http := { http with responseStatus := BitVec.ofNat 16 status }
              match kstrstr (crlf ++ crlf) (text.drop (lineEnd + 2)) with
              | none => (false, http)
              | some length =>
                  match parseFields text (lineEnd + 2 + length) (text.length + 1) (lineEnd + 2)
                    http with
                  | (false, http) => (false, http)
                  | (true, http) =>
                      if http.chunkedEncoding then (false, http)
                      else (true, { http with headersDone := true })

/-- Record the call of a callback, if there is one. -/
def Http.report (http : Http) (callback cause : Option Nat) (connection : Nat)
    (call : HttpCall) : Http :=
  match callback with
  | none => http
  | some owner =>
      { http with
        reports := http.reports ++
          [⟨owner, cause, connection, http.hasContentLength, http.response, call⟩] }

/-- The header loop of `http_on_data`: whether no error was found, and the data that is
left when the headers are complete. -/
def readHeaders (key connection : Nat) : Http → List UInt8 → Bool × Http × List UInt8
  | http, [] => (true, http, [])
  | http, byte :: rest =>
      if http.headersDone then (true, http, byte :: rest)
      else if http.headerBuffer.length ≥ httpHeaderMax then (false, http, byte :: rest)
      else
        let http := { http with headerBuffer := http.headerBuffer ++ [byte] }
        if (crlf ++ crlf).isSuffixOf http.headerBuffer then
          match parseHeaders http with
          | (false, http) => (false, http, rest)
          | (true, http) =>
              readHeaders key connection
                (http.report http.headersCallback (some key) connection
                  (.headers http.responseStatus http.hasContentLength http.expectedBody)) rest
        else readHeaders key connection http rest

/-- `finish_request`. -/
def finishRequest (cause : Option Nat) (success closeTcp : Bool) (world : World Nat Http) :
    World Nat Http :=
  if !world.user.active then world
  else
    let callback := world.user.completeCallback
    let world := { world with
      user := { world.user with
        active := false
        completeCallback := none
        headersCallback := none
        bodyCallback := none } }
    let world := if closeTcp then netTcpClose world else world
    { world with
      user := world.user.report callback cause world.tcp.past.length (.complete success) }

/-- The part of the data that belongs to the body. -/
def bodyPart (http : Http) (data : List UInt8) : List UInt8 :=
  let remaining := if http.expectedBody > http.receivedBody then
    (http.expectedBody - http.receivedBody).toNat else 0
  if http.hasContentLength ∧ data.length > remaining then data.take remaining else data

/-- `deliver_body`. -/
def deliverBody (key : Nat) (data : List UInt8) (world : World Nat Http) : World Nat Http :=
  if data.length = 0 ∨ !world.user.active then world
  else
    let http := world.user
    let data := bodyPart http data
    let http := if data.length = 0 then http
      else http.report http.bodyCallback (some key) world.tcp.past.length (.body data)
    let http := { http with receivedBody := http.receivedBody + BitVec.ofNat 32 data.length }
    if http.hasContentLength ∧ http.receivedBody ≥ http.expectedBody then
      finishRequest (some key) true true { world with user := http }
    else { world with user := http }

/-- `http_on_data`. -/
def httpOnData (key : Nat) (data : List UInt8) (world : World Nat Http) : World Nat Http :=
  if !world.user.active then world
  else
    let world := { world with
      user := { world.user with response := world.user.response ++ data } }
    if world.user.headersDone then deliverBody key data world
    else
      match readHeaders key world.tcp.past.length world.user data with
      | (false, http, _) => finishRequest (some key) false true { world with user := http }
      | (true, http, rest) =>
          if http.headersDone ∧ http.hasContentLength ∧ http.expectedBody = 0 then
            finishRequest (some key) true true { world with user := http }
          else if http.headersDone then deliverBody key rest { world with user := http }
          else { world with user := http }

/-- `http_on_closed`. -/
def httpOnClosed (key : Nat) (clean : Bool) (world : World Nat Http) : World Nat Http :=
  if !world.user.active then world
  else
    let http := world.user
    finishRequest (some key)
      (clean && http.headersDone &&
        (!http.hasContentLength || http.receivedBody ≥ http.expectedBody)) false world

/-- The text of a request, if it fits into the buffer.  The parts are appended one by
one, so the whole is what counts. -/
def requestText (http : Http) : Option (List UInt8) :=
  let text := ascii "GET " ++ http.requestPath ++ ascii " HTTP/1.0\r\nHost: " ++
    http.requestHost ++
    ascii "\r\nUser-Agent: CharisOS/1.0\r\nAccept: */*\r\nConnection: close\r\n\r\n"
  if text.length ≥ httpRequestMax then none else some text

/-- `http_on_connect`. -/
def httpOnConnect (key : Nat) (connected : Bool) (world : World Nat Http) : World Nat Http :=
  if !world.user.active then world
  else if !connected then finishRequest (some key) false false world
  else
    match requestText world.user with
    | none => finishRequest (some key) false true world
    | some text =>
        match netTcpSend world text with
        | (.failed, world) => finishRequest (some key) false true world
        | (_, world) => world

/-- `http_on_dns`. -/
def httpOnDns (key : Nat) (ip : Ipv4) (success : Bool) (world : World Nat Http) :
    World Nat Http :=
  if !world.user.active then world
  else if !success then finishRequest (some key) false false world
  else
    match netTcpConnect world ip 80 key (some key) (some key) with
    | (true, world) => world
    | (false, world) => finishRequest (some key) false false world

/-- The client as a user of the resolver and the TCP client. -/
def httpCallbacks : Callbacks Nat Http where
  dnsAnswer := fun key _ ip success world => httpOnDns key ip success world
  tcpConnect := httpOnConnect
  tcpData := httpOnData
  tcpClose := httpOnClosed
  udp := fun _ _ _ _ world => world

/-- The arguments of `net_http_get`: two texts and which callbacks are given. -/
structure HttpRequest where
  hostname : List UInt8
  path : List UInt8
  onHeaders : Bool
  onBody : Bool
  onComplete : Bool

/-- The checks of `net_http_get`. -/
def HttpRequest.valid (request : HttpRequest) : Bool :=
  request.path.head? = some 0x2F && request.onComplete && request.hostname.length ≠ 0 &&
    request.hostname.length ≤ httpHostMax && request.path.length ≤ httpPathMax &&
    request.path.all (0x21 ≤ ·)

/-- `net_http_get`. -/
def netHttpGet (request : HttpRequest) (world : World Nat Http) : Bool × World Nat Http :=
  if world.user.active ∨ !request.valid then (false, world)
  else
    let number := world.user.number + 1
    let world := { world with
      user := { world.user with
        requestHost := request.hostname
        requestPath := request.path
        headersCallback := if request.onHeaders then some number else none
        bodyCallback := if request.onBody then some number else none
        completeCallback := some number
        headerBuffer := []
        headersDone := false
        hasContentLength := false
        chunkedEncoding := false
        responseStatus := 0
        expectedBody := 0
        receivedBody := 0
        active := true
        number
        response := [] } }
    match netDnsQuery world request.hostname number with
    | (true, world) => (true, world)
    | (false, world) =>
        (false, { world with
          user := { world.user with
            active := false
            headersCallback := none
            bodyCallback := none
            completeCallback := none } })

/-- `net_http_cancel`. -/
def netHttpCancel (world : World Nat Http) : World Nat Http :=
  finishRequest none false true world

end Charis.Net
