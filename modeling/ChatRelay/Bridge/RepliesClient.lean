import ChatRelay.Attempt
import ChatRelay.Conversation.Reply
import ChatRelay.Conversation.Session
import ChatRelay.Backend
import ChatRelay.Identifier
import ChatRelay.Json.Printer
import ChatRelay.Options
import ChatRelay.Request

/-!
# Clients of the Responses dialect

How a request of such a client goes to a backend of each dialect, and how the backend's reply comes
back. The client sends only what is new, and names the reply that it continues; the conversation
before it comes from the session store (`claudeBody`, `openaiBody`). When the reply is there, the
exchange is recorded, unless the client asked not to store it (`reply`).
-/

namespace ChatRelay.RepliesClient

/-- The name under which the bridges of these clients go. -/
def name : Bytes := "responses"

/-- What is remembered of a request until the reply is there. -/
structure Asked where
  model : Bytes := []
  /-- The reply that the request continues; empty for a new conversation. -/
  previousId : Bytes := []
  input : Json := .null
  stream : Bool := false
  store : Bool := true

namespace Asked

/-- What a request asks for. -/
def ofJson (request : Json) : Asked where
  model := request.stringField "model"
  previousId := request.stringField "previous_response_id"
  input := (request.field? "input").getD .null
  stream := request.boolField "stream"
  store := request.boolFieldD "store" true

/-- What a request asks for; a body that cannot be read leaves what the request before asked for. -/
def ofRequest (earlier : Asked) (inbound : ClientRequest) : Asked :=
  match Json.parseObject inbound.body "Responses request" with
  | .ok request => ofJson request
  | .error _ => earlier

end Asked

/-! ## 1. Requests -/

/-- The number under a key, as it is. -/
def number? (request : Json) (key : Bytes) : Option Json :=
  (request.field? key).filter Json.isNumber

/-- The body for a Claude backend: the conversation up to now and the new input. -/
def claudeBody (request : Json) (history : List Item) (model : Bytes) (defaultMaxTokens : Int) :
    Except RelayError Json := do
  let asked := Asked.ofJson request
  let messages ← Item.claudeMessages history asked.input
  let instructions := request.stringField "instructions"
  .ok (.objectWith
    [("model", .str model), ("messages", .arr messages),
      ("max_tokens", .int ((request.intField? "max_output_tokens").getD defaultMaxTokens))]
    [("system", if instructions.isEmpty then none else some (.str instructions)),
      ("stream", if asked.stream then some (.bool true) else none),
      ("temperature", number? request "temperature"), ("top_p", number? request "top_p")])

/-- The body for an OpenAI backend: the conversation up to now and the new input. -/
def openaiBody (request : Json) (history : List Item) (model : Bytes) : Except RelayError Json := do
  let asked := Asked.ofJson request
  let messages ← Item.chatMessages history asked.input (request.stringField "instructions")
  .ok (.objectWith
    [("model", .str model), ("messages", .arr messages)]
    [("stream", if asked.stream then some (.bool true) else none),
      ("stream_options",
        if asked.stream then some (.object [("include_usage", .bool true)]) else none),
      ("max_completion_tokens", number? request "max_output_tokens"),
      ("temperature", number? request "temperature"), ("top_p", number? request "top_p")])

/-- The endpoint and the body of the request to a backend of a dialect. -/
def target (dialect : Dialect) (request : Json) (body : Bytes) (backend : Backend)
    (sessions : SessionStore) (options : Options) : Attempt (Bytes × Bytes) :=
  let asked := Asked.ofJson request
  let model := backend.redirect asked.model
  match dialect with
  | .responses => do
    let _ ← Item.ofInput asked.input
    if backend.models.isEmpty then pure ("/responses", body)
    else do
      let body ← (request.set "model" (.str model)).dump
      pure ("/responses", body)
  | .claude => do
    Attempt.notes (sessions.historyEntries asked.previousId)
    let converted ←
      claudeBody request (sessions.history asked.previousId) model options.defaultMaxTokens
    let body ← converted.dump
    pure ("/messages", body)
  | .openai => do
    Attempt.notes (sessions.historyEntries asked.previousId)
    let converted ← openaiBody request (sessions.history asked.previousId) model
    let body ← converted.dump
    pure ("/chat/completions", body)
  | .gemini =>
    ⟨[], .error (.misconfigured "A Responses client cannot be served by a gemini upstream"
      "serviceType")⟩

/-- The key and the client's marks as a backend of a dialect takes them. -/
def authenticate (dialect : Dialect) (h : Headers) (apiKey : Bytes) (options : Options) : Headers :=
  let h := h.authenticate apiKey
  if dialect = .claude then
    (h.set "anthropic-version" Headers.claudeVersion).asClaudeClient options.claudeUserAgent
  else h

/-- What the log says of a request that is ready. -/
def requestEntry (dialect : Dialect) (previousId : Bytes) : LogEntry :=
  .debug name (Bytes.ofString "request built for " ++ dialect.name ++
    if previousId.isEmpty then [] else Bytes.ofString ", continuing " ++ previousId)

/-- The request to a backend of a dialect. -/
def request (dialect : Dialect) (inbound : ClientRequest) (backend : Backend) (apiKey : Bytes)
    (sessions : SessionStore) (options : Options) : Attempt BackendRequest := do
  let value ← Json.parseObject inbound.body "Responses request"
  let (endpoint, body) ← target dialect value inbound.body backend sessions options
  let url := Url.target backend.effectiveBaseUrl endpoint []
  let headers :=
    (Headers.forBackend inbound.headers (Url.host url)).set "Content-Type" "application/json"
  Attempt.note (requestEntry dialect (Asked.ofJson value).previousId)
  pure { method := "POST", url, body, headers := authenticate dialect headers apiKey options }

/-! ## 2. Replies -/

/-- The reply of a backend of a dialect as a reply object. -/
def replyObject (dialect : Dialect) (body previousId freshId : Bytes) : Except RelayError Json :=
  match dialect with
  | .claude => do
    let value ← Json.parseObject body "Claude response"
    Reply.ofClaude value previousId freshId
  | .openai => do
    let value ← Json.parseObject body "OpenAI response"
    Reply.ofOpenai value previousId freshId
  | .gemini | .responses => Json.parseObject body "Responses response"

/-- The exchange that a reply object completes. -/
def exchangeOf (input : List Item) (reply : Json) : SessionStore.Exchange where
  input
  output := Reply.outputItems reply
  tokens := (Usage.ofReport ((reply.field? "usage").getD .null)).totalTokens
  replyId := reply.stringField "id"

/-- Records the exchange that a reply object completes. The reply then names the latest reply of the
    session it went to. -/
def record (asked : Asked) (reply : Json) (sessions : SessionStore) (freshId : Bytes) :
    SessionStore × Attempt Json :=
  let (session, resumed) := sessions.resume asked.previousId freshId
  let entries := sessions.resumeEntries asked.previousId freshId
  match Item.ofInput asked.input with
  | .error e => (resumed, ⟨entries, .error e⟩)
  | .ok input =>
    let exchange := exchangeOf input reply
    let reply :=
      if session.lastReplyId.isEmpty then reply
      else reply.set "previous_id" (.str session.lastReplyId)
    (resumed.record session.id exchange,
      ⟨entries ++ [.debug name (Bytes.ofString "session " ++ session.id ++
        Bytes.ofString " gained " ++ Bytes.ofNat exchange.output.length ++
        Bytes.ofString " output items")], .ok reply⟩)

/-- The reply of a backend for the client, and the sessions after it; `fresh` is a number for new
    ids. -/
def reply (dialect : Dialect) (asked : Asked) (body : Bytes) (sessions : SessionStore)
    (fresh : Nat) : SessionStore × Attempt Bytes :=
  match replyObject dialect body asked.previousId (Identifier.reply fresh) with
  | .error e => (sessions, ⟨[], .error e⟩)
  | .ok object =>
    let (sessions, recorded) :=
      if asked.store then record asked object sessions (Identifier.session fresh)
      else (sessions, pure object)
    (sessions, do (← recorded).dump)

end ChatRelay.RepliesClient
