import ChatRelay.Bridge.ClaudeClient
import ChatRelay.Bridge.GeminiClient
import ChatRelay.Bridge.RepliesClient
import ChatRelay.Stream.Run

/-!
# Bridges

A bridge serves a client of one dialect at a backend of a dialect: it turns the client's request
into one for the backend (`request`), the backend's reply into one for the client (`reply`), and the
backend's stream into one for the client (`stream`). What a later step has to know of a request is
remembered in the bridge (`remember`), even when the request fails afterwards.

Claude clients have a bridge to every dialect but Responses. The bridges of the other clients exist
for every dialect; for a pairing that cannot work it is the request that fails.
-/

namespace ChatRelay

inductive Bridge where
  | claudeToClaude
  | claudeToOpenai
  /-- Remembers the model that was asked for. -/
  | claudeToGemini (model : Bytes)
  | geminiTo (backend : Dialect) (route : Gemini.Route)
  | repliesTo (backend : Dialect) (asked : RepliesClient.Asked)

namespace Bridge

/-- The bridge of a Claude client. -/
def ofClaude (backend : Dialect) : Except RelayError Bridge :=
  match backend with
  | .claude => .ok claudeToClaude
  | .openai => .ok claudeToOpenai
  | .gemini => .ok (claudeToGemini [])
  | .responses =>
    .error (.misconfigured
      (Bytes.ofString "No Claude-dialect provider for service type " ++ backend.name)
      "serviceType")

/-- The bridge of a client and a backend. No client may speak the OpenAI dialect. -/
def between (client backend : Dialect) : Except RelayError Bridge :=
  match client with
  | .claude => ofClaude backend
  | .gemini => .ok (geminiTo backend ⟨[], false⟩)
  | .responses => .ok (repliesTo backend {})
  | .openai =>
    .error (.misconfigured (Bytes.ofString "Unsupported client dialect: " ++ client.name) [])

/-- The name of the bridge in the log. -/
def name : Bridge → Bytes
  | claudeToClaude => "claude"
  | claudeToOpenai => "openai"
  | claudeToGemini _ => "gemini"
  | geminiTo _ _ => GeminiClient.name
  | repliesTo _ _ => RepliesClient.name

/-- The bridge after a request, whether it succeeded or not. -/
def remember (b : Bridge) (inbound : ClientRequest) (backend : Backend) : Bridge :=
  match b with
  | claudeToClaude => claudeToClaude
  | claudeToOpenai => claudeToOpenai
  | claudeToGemini model => claudeToGemini (ClaudeClient.geminiModel model inbound backend)
  | geminiTo dialect route => geminiTo dialect (GeminiClient.routeOf route inbound)
  | repliesTo dialect asked => repliesTo dialect (asked.ofRequest inbound)

/-- The request to the backend. -/
def request (b : Bridge) (inbound : ClientRequest) (backend : Backend) (apiKey : Bytes)
    (sessions : SessionStore) (options : Options) : Attempt BackendRequest :=
  match b with
  | claudeToClaude => ClaudeClient.requestToClaude inbound backend apiKey options
  | claudeToOpenai => ClaudeClient.requestToOpenai inbound backend apiKey options
  | claudeToGemini _ => ClaudeClient.requestToGemini inbound backend apiKey
  | geminiTo dialect _ => GeminiClient.request dialect inbound backend apiKey
  | repliesTo dialect _ =>
    RepliesClient.request dialect inbound backend apiKey sessions options

/-- The reply for the client and the sessions after it; `fresh` is a number for new ids. Only
    clients of the Responses dialect have sessions. -/
def reply (b : Bridge) (body : Bytes) (sessions : SessionStore) (fresh : Nat) :
    SessionStore × Attempt Bytes :=
  match b with
  | claudeToClaude => (sessions, ⟨[], ClaudeClient.replyOfClaude body⟩)
  | claudeToOpenai => (sessions, ⟨[], ClaudeClient.replyOfOpenai body (Identifier.message fresh)⟩)
  | claudeToGemini model =>
    (sessions, ⟨[], ClaudeClient.replyOfGemini body model (Identifier.message fresh)⟩)
  | geminiTo dialect _ => (sessions, ⟨[], GeminiClient.reply dialect body⟩)
  | repliesTo dialect asked => RepliesClient.reply dialect asked body sessions fresh

/-- The transcoder for the backend's stream; `fresh` is a number for new ids. -/
def transcoder (b : Bridge) (fresh : Nat) : Transcoder :=
  match b with
  | claudeToClaude => .passthrough {}
  | claudeToOpenai => .openaiToClaude {}
  | claudeToGemini _ => .geminiToClaude {}
  | geminiTo .claude _ => .claudeToGemini {}
  | geminiTo .openai _ => .openaiToGemini {}
  | geminiTo _ _ => .passthrough {}
  | repliesTo .claude asked =>
    .claudeToReplies { writer := { id := Identifier.reply fresh, model := asked.model } }
  | repliesTo .openai asked =>
    .openaiToReplies { id := Identifier.reply fresh, model := asked.model }
  | repliesTo _ _ => .passthrough {}

/-- The stream for the client, about to run. -/
def stream (b : Bridge) (body : Body) (options : Options) (fresh : Nat) : Run :=
  let run := Run.start body (b.transcoder fresh) options
  { run with log := [.debug b.name "starting stream transcoder"] }

end Bridge

end ChatRelay
