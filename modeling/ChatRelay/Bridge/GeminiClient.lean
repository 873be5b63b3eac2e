import ChatRelay.Attempt
import ChatRelay.Gemini.Response
import ChatRelay.Gemini.Route
import ChatRelay.Request

/-!
# Gemini clients

How a request of a Gemini client goes to a backend of each dialect, and how the backend's reply
comes back. The model and the wish for a stream are in the path of the request, not in its body. A
Gemini backend takes the body as it is.
-/

namespace ChatRelay.GeminiClient

/-- The name under which the bridges of Gemini clients go. -/
def name : Bytes := "gemini-client"

/-! ## 1. Requests -/

/-- The route of a request; a path that names no model leaves the route of the request before. -/
def routeOf (earlier : Gemini.Route) (inbound : ClientRequest) : Gemini.Route :=
  match Gemini.Route.ofPath inbound.path inbound.query with
  | .ok route => route
  | .error _ => earlier

/-- The endpoint, the query and the body of the request to a backend of a dialect. -/
def target (dialect : Dialect) (route : Gemini.Route) (request : Json) (body : Bytes) :
    Except RelayError (Bytes × Bytes × Bytes) :=
  match dialect with
  | .gemini => .ok (route.endpoint, route.query, body)
  | .claude => do
    let converted ← Gemini.requestToClaude request route.model
    let body ← (converted.set "stream" (.bool route.stream)).dump
    .ok ("/messages", [], body)
  | .openai => do
    let converted ← Gemini.requestToOpenai request route.model
    let body ← (converted.set "stream" (.bool route.stream)).dump
    .ok ("/chat/completions", [], body)
  | .responses =>
    .error (.misconfigured "A Gemini client cannot be served by a responses upstream" "serviceType")

/-- The key and the interface version as a backend of a dialect takes them. -/
def authenticate (dialect : Dialect) (h : Headers) (apiKey : Bytes) : Headers :=
  match dialect with
  | .gemini => h.authenticateGemini apiKey
  | .claude => (h.authenticate apiKey).set "anthropic-version" Headers.claudeVersion
  | .openai | .responses => h.authenticate apiKey

/-- The request to a backend of a dialect. -/
def request (dialect : Dialect) (inbound : ClientRequest) (backend : Backend) (apiKey : Bytes) :
    Attempt BackendRequest := do
  let asked ← Gemini.Route.ofPath inbound.path inbound.query
  let value ← Json.parseObject inbound.body "Gemini request"
  let route := { asked with model := backend.redirect asked.model }
  let (endpoint, query, body) ← target dialect route value inbound.body
  let url := Url.target backend.effectiveBaseUrl endpoint query
  let headers :=
    (Headers.forBackend inbound.headers (Url.host url)).set "Content-Type" "application/json"
  Attempt.note (.debug name (Bytes.ofString "routing model to " ++ dialect.name ++
    Bytes.ofString (if route.stream then " (stream)" else "")))
  pure { method := "POST", url, body, headers := authenticate dialect headers apiKey }

/-! ## 2. Replies -/

/-- The reply of a backend of a dialect as a Gemini response. -/
def reply (dialect : Dialect) (body : Bytes) : Except RelayError Bytes :=
  match dialect with
  | .claude => do
    let value ← Json.parseObject body "Claude response"
    (Gemini.responseOfClaude value).dump
  | .openai => do
    let value ← Json.parseObject body "OpenAI response"
    (Gemini.responseOfOpenai value).dump
  | .gemini | .responses => (Json.parseObject body "Gemini response").map fun _ => body

end ChatRelay.GeminiClient
