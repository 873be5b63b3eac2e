import ChatRelay.Gemini.Request
import ChatRelay.OpenAI.Completion

/-!
# Gemini responses

A response holds candidates, of which the first counts. `ofClaude` and `ofOpenai` write the response
for a reply of the other dialects; `completionOf` reads a response as a completed reply.
-/

namespace ChatRelay.Gemini

/-! ## 1. Responses for Gemini clients -/

/-- A candidate with its parts and the reason why it ended. -/
def candidate (parts : List Json) (finishReason : Bytes) : Json :=
  .object [("content", .object [("parts", .arr parts), ("role", .str "model")]),
    ("finishReason", .str finishReason), ("index", .int 0)]

/-- The part of a block of a reply. An input that is null stays null here, and an empty text is a
    part. -/
def partOfReplyBlock? : ContentBlock → Option Json
  | .text t => some (textPart t)
  | .toolUse _ name input => some (callPart name input)
  | .thinking (.str t) signature => some (thoughtPart (.str t) signature)
  | .thinking _ _ => none
  | .image _ _ => none
  | .toolResult _ _ => none
  | .raw _ => none

/-- The usage report of a reply under a key, for a Gemini client. -/
def usageReport? (reply : Json) (key : Bytes) : Option Json :=
  (Completion.usageOf? reply key).map Usage.toGemini

/-- The response for a Claude reply; without content it has no candidate. -/
def responseOfClaude (reply : Json) : Json :=
  match reply.arrayField? "content" with
  | none => .object [("candidates", .arr [])]
  | some blocks =>
    let parts := blocks.filterMap fun b => partOfReplyBlock? (ContentBlock.ofClaude b)
    let reason := StopReason.claudeToGemini (reply.stringField "stop_reason")
    .objectWith [("candidates", .arr [candidate parts reason])]
      [("usageMetadata", usageReport? reply "usage")]

/-- The arguments of a tool call of a chat completion; null when there are none or they are not
    JSON. -/
def argsOfArguments (arguments : Bytes) : Json :=
  if arguments.isEmpty then .null else (Json.parse? arguments).getD .null

/-- The part of an entry of a list of tool calls, if it has a function. -/
def partOfCall? (call : Json) : Option Json :=
  (call.objectField? "function").map fun function =>
    callPart (function.stringField "name") (argsOfArguments (function.stringField "arguments"))

/-- The parts of the message of a chat completion. -/
def partsOfChatMessage (message : Json) : List Json :=
  (OpenAI.textOfMessage? message).toList.map textPart ++
    ((message.arrayField? "tool_calls").getD []).filterMap partOfCall?

/-- The response for a chat completion; without choice it has no candidate. -/
def responseOfOpenai (reply : Json) : Json :=
  match reply.headField? "choices" with
  | none => .object [("candidates", .arr [])]
  | some choice =>
    let parts := partsOfChatMessage ((choice.field? "message").getD .null)
    let reason :=
      match choice.field? "finish_reason" with
      | some (.str r) => StopReason.openaiToGemini r
      | _ => "STOP"
    .objectWith [("candidates", .arr [candidate parts reason])]
      [("usageMetadata", usageReport? reply "usage")]

/-! ## 2. Responses of Gemini backends -/

/-- The text block or thought of a part of a response, unless its text is empty. -/
def replyTextBlock? (part : Json) : Option ContentBlock :=
  let text := part.stringField "text"
  if text.isEmpty then none
  else if part.boolField "thought" then some (.thinking (.str text) (signature? part))
  else some (.text text)

/-- The tool call of the part at a position. -/
def replyCallBlock? (part : Json) (position : Nat) : Option ContentBlock :=
  (part.objectField? "functionCall").map fun call =>
    .toolUse (toolUseId position) (call.stringField "name")
      ((call.field? "args").getD (.obj []))

/-- The parts of the first candidate, with their positions. -/
def replyParts (reply : Json) : List (Json × Nat) :=
  match (reply.headField? "candidates").bind (·.objectField? "content") with
  | some content => ((content.arrayField? "parts").getD []).zipIdx
  | none => []

/-- The reply that a Gemini response describes, under the given id. -/
def completionOf (reply : Json) (id : Bytes) : Completion :=
  let parts := replyParts reply
  let finishReason := ((reply.headField? "candidates").map (·.stringField "finishReason")).getD []
  { id
    model := reply.stringField "modelVersion"
    role := .assistant
    content := parts.flatMap fun p =>
      (replyTextBlock? p.1).toList ++ (replyCallBlock? p.1 p.2).toList
    stopReason :=
      if parts.any fun p => (replyCallBlock? p.1 p.2).isSome then "tool_use"
      else StopReason.geminiToClaude finishReason
    stopSequence := none
    usage := Completion.usageOf? reply "usageMetadata" }

/-- The Claude value of a Gemini response. -/
def responseToClaude (reply : Json) (id : Bytes) : Json :=
  (completionOf reply id).toClaude id

end ChatRelay.Gemini
