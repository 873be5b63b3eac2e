import ChatRelay.Gemini.Request
import ChatRelay.Stream.Sse
import ChatRelay.Usage

/-!
# Events for clients

The events that a stream delivers, before they are written: `ClaudeEvent` for Claude clients,
`GeminiChunk` for Gemini clients and `ReplyEvent` for clients of the Responses dialect. Each has
its JSON value and its text on the wire (`render`); writing fails only on a string that is not
UTF-8.
-/

namespace ChatRelay

/-! ## 1. Claude clients -/

/-- What a content block is when it starts; its content follows in deltas. -/
inductive BlockOpening where
  | text
  | thinking
  | toolUse (id name : Bytes)
  deriving DecidableEq

/-- A piece of the content of a block. -/
inductive BlockDelta where
  | text (piece : Bytes)
  | thinking (piece : Bytes)
  | signature (signature : Bytes)
  /-- The input of a tool call, whole. -/
  | input (value : Json)
  deriving DecidableEq

inductive ClaudeEvent where
  | blockStart (index : Nat) (block : BlockOpening)
  | blockDelta (index : Nat) (delta : BlockDelta)
  | blockStop (index : Nat)
  /-- The end of the message, as far as it is known: why it ended and what it cost. -/
  | messageDelta (stopReason : Option Bytes) (usage : Option Usage)
  deriving DecidableEq

def BlockOpening.toJson : BlockOpening → Json
  | text => .object [("type", .str "text"), ("text", .str [])]
  | thinking => .object [("type", .str "thinking"), ("thinking", .str [])]
  | toolUse id name =>
    .object [("type", .str "tool_use"), ("id", .str id), ("name", .str name), ("input", .obj [])]

/-- The value of a delta; the input of a tool call is written as JSON text. -/
def BlockDelta.toJson : BlockDelta → Except RelayError Json
  | text t => .ok (.object [("type", .str "text_delta"), ("text", .str t)])
  | thinking t => .ok (.object [("type", .str "thinking_delta"), ("thinking", .str t)])
  | signature s => .ok (.object [("type", .str "signature_delta"), ("signature", .str s)])
  | input value =>
    value.dump.map fun text =>
      .object [("type", .str "input_json_delta"), ("partial_json", .str text)]

namespace ClaudeEvent

/-- The type of the event. -/
def name : ClaudeEvent → Bytes
  | blockStart _ _ => "content_block_start"
  | blockDelta _ _ => "content_block_delta"
  | blockStop _ => "content_block_stop"
  | messageDelta _ _ => "message_delta"

def toJson (e : ClaudeEvent) : Except RelayError Json :=
  match e with
  | blockStart index block =>
    .ok (.object [("type", .str e.name), ("index", .int index), ("content_block", block.toJson)])
  | blockDelta index delta =>
    delta.toJson.map fun delta =>
      .object [("type", .str e.name), ("index", .int index), ("delta", delta)]
  | blockStop index => .ok (.object [("type", .str e.name), ("index", .int index)])
  | messageDelta stopReason usage =>
    .ok (.objectWith
      [("type", .str e.name),
        ("delta", .objectWith [] [("stop_reason", stopReason.map .str)])]
      [("usage", usage.map Usage.toClaude)])

def render (e : ClaudeEvent) : Except RelayError Bytes := do
  Sse.formatEvent e.name (← e.toJson)

end ClaudeEvent

/-! ## 2. Gemini clients -/

inductive GeminiChunk where
  /-- A candidate with one part. -/
  | part (part : Json)
  /-- The end of the candidate. -/
  | finish (reason : Bytes) (usage : Option Usage)
  | usage (usage : Usage)
  deriving DecidableEq

namespace GeminiChunk

def toJson : GeminiChunk → Json
  | part p =>
    .object [("candidates", .arr [.object [
      ("content", .object [("parts", .arr [p]), ("role", .str "model")]), ("index", .int 0)]])]
  | finish reason u =>
    .objectWith
      [("candidates", .arr [.object [("finishReason", .str reason), ("index", .int 0)]])]
      [("usageMetadata", u.map Usage.toGemini)]
  | usage u => .object [("usageMetadata", u.toGemini)]

def render (c : GeminiChunk) : Except RelayError Bytes :=
  c.toJson.dump.map Sse.unnamed

end GeminiChunk

/-! ## 3. Clients of the Responses dialect -/

inductive ReplyEvent where
  | created (id model : Bytes)
  | textDelta (piece : Bytes)
  | textDone (text : Bytes)
  | completed (id model text : Bytes) (usage : Usage)
  deriving DecidableEq

namespace ReplyEvent

/-- The type of the event. -/
def name : ReplyEvent → Bytes
  | created _ _ => "response.created"
  | textDelta _ => "response.output_text.delta"
  | textDone _ => "response.output_text.done"
  | completed _ _ _ _ => "response.completed"

/-- The reply object within an event. -/
def replyObject (id model status : Bytes) (output : List Json) (usage : Option Usage) : Json :=
  .objectWith
    [("id", .str id), ("object", .str "response"), ("model", .str model),
      ("status", .str status), ("output", .arr output)]
    [("usage", usage.map Usage.toResponses)]

def toJson (e : ReplyEvent) : Json :=
  match e with
  | created id model =>
    .object [("type", .str e.name), ("response", replyObject id model "in_progress" [] none)]
  | textDelta piece =>
    .object [("type", .str e.name), ("output_index", .int 0), ("content_index", .int 0),
      ("delta", .str piece)]
  | textDone text =>
    .object [("type", .str e.name), ("output_index", .int 0), ("content_index", .int 0),
      ("text", .str text)]
  | completed id model text usage =>
    .object [("type", .str e.name),
      ("response", replyObject id model "completed"
        [.object [("type", .str "text"), ("content", .str text)]] (some usage))]

def render (e : ReplyEvent) : Except RelayError Bytes :=
  Sse.formatEvent e.name e.toJson

end ReplyEvent

end ChatRelay
