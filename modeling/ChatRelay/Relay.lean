import ChatRelay.Bridge.Basic

/-!
# The relay

A relay forwards the requests of its clients to a backend. It always uses the first of its backends
and the first of that backend's keys. A request goes to the backend at most once (`Forwarded.sent`);
a reply with a status outside 200 to 299 is an error (`checkStatus`).
-/

namespace ChatRelay

/-! ## 1. Replies of a backend -/

/-- The most bytes of a body that an error shows. -/
def snippetBytes : Nat := 200

/-- What the body of a failed reply says: the message of its error, or the beginning of the body. -/
def failureText (body : Bytes) : Bytes :=
  let text :=
    match (Json.parse? body).bind Json.object? with
    | none => []
    | some reply =>
      match reply.field? "error" with
      | some (.obj fields) => (Json.obj fields).stringField "message"
      | some (.str s) => s
      | _ => reply.stringField "message"
  if text.isEmpty then body.take snippetBytes else text

/-- Fails on a reply whose status reports a failure. -/
def checkStatus (reply : BackendReply) (url : Bytes) : Except RelayError Unit :=
  if 200 ≤ reply.status ∧ reply.status < 300 then .ok ()
  else
    .error (.badStatus (Bytes.ofString "API error: " ++ failureText reply.body) reply.status
      reply.body (Url.withoutQuery url))

/-! ## 2. Forwarding -/

/-- A relay, and the conversations it has served. -/
structure Relay where
  options : Options
  backend : Backend
  sessions : SessionStore := {}

/-- What a request to the relay comes to. -/
structure Forwarded (α : Type) where
  /-- The relay afterwards. -/
  relay : Relay
  /-- The requests that went to the backend. -/
  sent : List BackendRequest
  attempt : Attempt α

namespace Relay

/-- The name under which the relay writes to the log. -/
def component : Bytes := "relay"

/-- The relay at the first of some backends. -/
def start (options : Options) (backends : List Backend) : Except RelayError Relay :=
  match backends with
  | [] => .error (.misconfigured "No upstream configured" "upstreams")
  | backend :: _ => .ok { options, backend }

/-- What the log says of a new relay. -/
def startEntry (relay : Relay) : LogEntry :=
  .info component (Bytes.ofString "using upstream " ++ relay.backend.name ++
    Bytes.ofString " (" ++ relay.backend.dialect.name ++ Bytes.ofString ")")

/-- The key for the backend. -/
def apiKey (relay : Relay) : Except RelayError Bytes :=
  match relay.backend.apiKeys with
  | key :: _ => .ok key
  | [] =>
    .error (.misconfigured (Bytes.ofString "No API keys configured for upstream \"" ++
      relay.backend.name ++ Bytes.ofString "\"") "apiKeys")

/-- The bridge for a request, and the request to the backend. -/
def prepare (relay : Relay) (client : Dialect) (inbound : ClientRequest) :
    Attempt (Bridge × BackendRequest) := do
  let bridge ← Bridge.between client relay.backend.dialect
  let key ← relay.apiKey
  let request ← bridge.request inbound relay.backend key relay.sessions relay.options
  pure (bridge.remember inbound relay.backend, request)

/-- Forwards a request, which `send` takes to the backend; the result is the body for the client. -/
def forward (relay : Relay) (client : Dialect) (inbound : ClientRequest)
    (send : BackendRequest → Except RelayError BackendReply) (fresh : Nat) : Forwarded Bytes :=
  let prepared := relay.prepare client inbound
  match prepared.result with
  | .error e => ⟨relay, [], ⟨prepared.log, .error e⟩⟩
  | .ok (bridge, request) =>
    let checked : Except RelayError BackendReply := do
      let reply ← send request
      checkStatus reply request.url
      .ok reply
    match checked with
    | .error e => ⟨relay, [request], ⟨prepared.log, .error e⟩⟩
    | .ok reply =>
      let (sessions, attempt) := bridge.reply reply.body relay.sessions fresh
      ⟨{ relay with sessions }, [request], ⟨prepared.log ++ attempt.log, attempt.result⟩⟩

/-- Forwards a request for a stream, which `openStream` opens at the backend; the result is the
    stream for the client, about to run. -/
def forwardStream (relay : Relay) (client : Dialect) (inbound : ClientRequest)
    (openStream : BackendRequest → Except RelayError (BackendReply × Body)) (fresh : Nat) :
    Forwarded Run :=
  let prepared := relay.prepare client inbound
  match prepared.result with
  | .error e => ⟨relay, [], ⟨prepared.log, .error e⟩⟩
  | .ok (bridge, request) =>
    let opened : Except RelayError (BackendReply × Body) := do
      let (reply, body) ← openStream request
      checkStatus reply request.url
      .ok (reply, body)
    match opened with
    | .error e => ⟨relay, [request], ⟨prepared.log, .error e⟩⟩
    | .ok (reply, body) =>
      let entry : LogEntry := .debug component (bridge.name ++
        Bytes.ofString " stream opened with status " ++ Bytes.ofInt reply.status)
      ⟨relay, [request],
        ⟨prepared.log ++ [entry], .ok (bridge.stream body relay.options fresh)⟩⟩

end Relay

end ChatRelay
