import ChatRelay.Attempt
import ChatRelay.Gemini.Response
import ChatRelay.Gemini.Route
import ChatRelay.Options
import ChatRelay.Request

/-!
# Claude clients

How a request of a Claude client goes to a backend of each dialect, and how the backend's reply
comes back. A Claude backend takes the body as it is, unless models are renamed; for the others the
body is converted.
-/

namespace ChatRelay.ClaudeClient

/-! ## 1. At a Claude backend -/

/-- The body for a Claude backend. -/
def claudeBody (body : Bytes) (backend : Backend) : Attempt Bytes :=
  if backend.models.isEmpty then pure body
  else do
    let request ← Json.parseObject body "Claude request"
    match request.field? "model" with
    | some (.str model) =>
      let name := backend.redirect model
      Attempt.notes
        (if name = model then []
        else [.debug "claude"
          (Bytes.ofString "model redirected for upstream " ++ backend.name)])
      (request.set "model" (.str name)).dump
    | _ => request.dump

/-- The request to a Claude backend. -/
def requestToClaude (inbound : ClientRequest) (backend : Backend) (apiKey : Bytes)
    (options : Options) : Attempt BackendRequest := do
  let body ← claudeBody inbound.body backend
  let url := Url.target backend.effectiveBaseUrl (Url.claudeEndpoint inbound.path) inbound.query
  let headers := Headers.forBackend inbound.headers (Url.host url)
  pure {
    method := inbound.method, url, body
    headers := (headers.authenticate apiKey).asClaudeClient options.claudeUserAgent }

/-- The reply of a Claude backend, which must be an object, as it came. -/
def replyOfClaude (body : Bytes) : Except RelayError Bytes :=
  (Json.parseObject body "Claude response").map fun _ => body

/-! ## 2. At an OpenAI backend -/

/-- The request to an OpenAI backend. -/
def requestToOpenai (inbound : ClientRequest) (backend : Backend) (apiKey : Bytes)
    (options : Options) : Attempt BackendRequest := do
  let request ← Json.parseObject inbound.body "Claude request"
  let converted ← OpenAI.ofClaudeRequest request backend options.defaultMaxTokens
  Attempt.note (OpenAI.conversionEntry converted)
  let body ← converted.dump
  let url := Url.target backend.effectiveBaseUrl "/chat/completions" []
  let headers := Headers.forBackend inbound.headers (Url.host url)
  pure {
    method := "POST", url, body
    headers := (headers.set "Content-Type" "application/json").authenticate apiKey }

/-- The reply of an OpenAI backend as a Claude reply under the given id. -/
def replyOfOpenai (body freshId : Bytes) : Except RelayError Bytes := do
  let reply ← Json.parseObject body "OpenAI response"
  (OpenAI.completionToClaude reply freshId).dump

/-! ## 3. At a Gemini backend -/

/-- The route of a Claude request at a Gemini backend. -/
def routeOf (request : Json) (backend : Backend) : Gemini.Route where
  model := backend.redirect (request.stringField "model")
  stream := request.boolField "stream"

/-- The model that a request asks a Gemini backend for; a body that cannot be read leaves the model
    of the request before. -/
def geminiModel (earlier : Bytes) (inbound : ClientRequest) (backend : Backend) : Bytes :=
  match Json.parseObject inbound.body "Claude request" with
  | .ok request => (routeOf request backend).model
  | .error _ => earlier

/-- The request to a Gemini backend. -/
def requestToGemini (inbound : ClientRequest) (backend : Backend) (apiKey : Bytes) :
    Attempt BackendRequest := do
  let request ← Json.parseObject inbound.body "Claude request"
  let route := routeOf request backend
  let url := Url.target backend.effectiveBaseUrl route.endpoint route.query
  let converted ← Gemini.requestOfClaude request
  let body ← converted.dump
  let headers := Headers.forBackend inbound.headers (Url.host url)
  pure {
    method := "POST", url, body
    headers := (headers.set "Content-Type" "application/json").authenticateGemini apiKey }

/-- The reply of a Gemini backend as a Claude reply under the given id. A reply that does not name
    its model has the model that was asked for. -/
def replyOfGemini (body model freshId : Bytes) : Except RelayError Bytes := do
  let reply ← Json.parseObject body "Gemini response"
  let converted := Gemini.responseToClaude reply freshId
  let converted :=
    if (converted.stringField "model").isEmpty then converted.set "model" (.str model)
    else converted
  converted.dump

end ChatRelay.ClaudeClient
