import ChatRelay.Backend
import ChatRelay.Claude.Content
import ChatRelay.Json.Printer
import ChatRelay.Log
import ChatRelay.Tools

/-!
# Chat completion requests

A Claude request as a request for a chat completion. The two dialects cut a conversation
differently: a Claude message may hold text, tool calls and answers to tool calls side by side,
while a chat message holds text and calls, and every answer is a message of its own
(`messagesOfMessage`). The answers come first, directly behind the message whose calls they answer.
-/

namespace ChatRelay.OpenAI

/-! ## 1. Text -/

/-- The text of a Claude system prompt: a string, or the text blocks of an array, one a line. -/
def systemText : Json → Bytes
  | .str s => s
  | .arr items =>
    Bytes.joinLines (items.filterMap fun (item : Json) =>
      if item.stringField "type" = "text" then (item.field? "text").bind Json.string? else none)
  | _ => []

/-! ## 2. Messages -/

/-- A message of plain text. -/
def textMessage (role content : Bytes) : Json :=
  .object [("role", .str role), ("content", .str content)]

/-- The text of a block, if it is a text block. -/
def text? : ContentBlock → Option Bytes
  | .text t => some t
  | _ => none

/-- The id, name and input of a tool call, if the block is one. -/
def call? : ContentBlock → Option (Bytes × Bytes × Json)
  | .toolUse id name input => some (id, name, input)
  | _ => none

/-- The call that is answered and the answer, if the block is one. -/
def answer? : ContentBlock → Option (Bytes × Json)
  | .toolResult id content => some (id, content)
  | _ => none

/-- A tool call as a chat message lists it; the arguments are JSON text. -/
def toolCall (id name : Bytes) (input : Json) : Except RelayError Json := do
  let arguments ← input.dump
  .ok (.object [("id", .str id), ("type", .str "function"),
    ("function", .object [("name", .str name), ("arguments", .str arguments)])])

/-- The message that answers a tool call. -/
def toolMessage (id : Bytes) (content : Json) : Except RelayError Json := do
  let text ← content.textOrDump
  .ok (.object [("role", .str "tool"), ("tool_call_id", .str id), ("content", .str text)])

/-- The chat messages of the blocks of one message: an answer each, then one message with the texts
    and calls. Images, thoughts and blocks that are not understood have no place in a chat. -/
def messagesOfBlocks (role : Role) (blocks : List ContentBlock) :
    Except RelayError (List Json) := do
  let answers ← (blocks.filterMap answer?).mapM fun a => toolMessage a.1 a.2
  let texts := blocks.filterMap text?
  let calls ← (blocks.filterMap call?).mapM fun c => toolCall c.1 c.2.1 c.2.2
  if (texts.isEmpty && calls.isEmpty) || role == .tool then .ok answers
  else
    .ok (answers ++ [.objectWith
      [("role", .str role.name),
        ("content", if texts.isEmpty then .null else .str (Bytes.joinLines texts))]
      [("tool_calls", if calls.isEmpty then none else some (.arr calls))]])

/-- The chat messages of one Claude message. -/
def messagesOfMessage (message : Json) : Except RelayError (List Json) :=
  let role := Role.ofChatText (message.stringField "role")
  match message.field? "content" with
  | some (.str s) => .ok (if role = .tool then [] else [textMessage role.name s])
  | some (.arr _) => messagesOfBlocks role (Message.ofClaude message).content
  | _ => .ok []

/-- The system message of a Claude request, if it has a system prompt that is not empty. -/
def systemMessages (request : Json) : List Json :=
  match request.field? "system" with
  | some system =>
    let text := systemText system
    if text.isEmpty then [] else [textMessage "system" text]
  | none => []

/-- The chat messages of a Claude request. -/
def messagesOfRequest (request : Json) : Except RelayError (List Json) := do
  let messages ← ((request.arrayField? "messages").getD []).mapM messagesOfMessage
  .ok (systemMessages request ++ messages.flatten)

/-! ## 3. Requests -/

/-- The limit that a request sets under a key, if it is positive. -/
def positiveField? (request : Json) (key : Bytes) : Option Int :=
  (request.intField? key).filter (0 < ·)

/-- The request for a chat completion that a Claude request comes to at a backend. -/
def ofClaudeRequest (request : Json) (backend : Backend) (defaultMaxTokens : Int) :
    Except RelayError Json := do
  let messages ← messagesOfRequest request
  let tools := (request.field? "tools").filter fun tools => !(tools.array?.getD []).isEmpty
  .ok (.objectWith
    [("model", .str (backend.redirect (request.stringField "model"))),
      ("messages", .arr messages),
      ("max_completion_tokens",
        .int ((positiveField? request "max_tokens").getD defaultMaxTokens))]
    [("stream", if request.boolField "stream" then some (.bool true) else none),
      ("temperature", (request.field? "temperature").filter Json.isNumber),
      ("tools", tools.map Tools.claudeToOpenai),
      ("tool_choice", tools.map fun _ => .str "auto")])

/-- What the log says of the request that a conversion made. -/
def conversionEntry (converted : Json) : LogEntry :=
  let count := ((converted.arrayField? "messages").getD []).length
  .debug "openai" (Bytes.ofString "converted request with " ++ Bytes.ofNat count ++
    Bytes.ofString " messages")

end ChatRelay.OpenAI
