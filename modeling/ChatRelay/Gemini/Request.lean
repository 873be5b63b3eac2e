import ChatRelay.Gemini.Content
import ChatRelay.OpenAI.Request
import ChatRelay.Tools

/-!
# Gemini requests

Requests between the Gemini dialect and the two others: `requestToClaude`, `requestToOpenai` and,
the other way, `requestOfClaude`. On the way from Claude an answer to a tool call has to name the
function, while the Claude dialect names the call, so the names of the calls made so far are carried
along (`contentsOfMessages`).
-/

namespace ChatRelay.Gemini

/-! ## 1. Requests of Gemini clients -/

/-- The array under a key, unless it is empty. -/
def fullArray? (j : Json) (key : Bytes) : Option Json :=
  (j.field? key).filter fun a => !(a.array?.getD []).isEmpty

/-- The value, unless it is an array without elements. -/
def unlessEmpty (j : Json) : Option Json :=
  if j = .arr [] then none else some j

/-- The Claude request of a Gemini request; fails on a value that is no object. -/
def requestToClaude (request : Json) (model : Bytes) : Except RelayError Json := do
  let contents ← request.valueD "contents" (.arr [])
  let system := systemText request
  let config := (request.objectField? "generationConfig").getD .null
  .ok (.objectWith
    [("model", .str model),
      ("messages", .arr ((contents.array?.getD []).filterMap messageToClaude?))]
    [("system", if system.isEmpty then none else some (.str system)),
      ("max_tokens", (OpenAI.positiveField? config "maxOutputTokens").map .int),
      ("temperature", config.field? "temperature"),
      ("top_p", config.field? "topP"),
      ("top_k", config.field? "topK"),
      ("stop_sequences", fullArray? config "stopSequences"),
      ("tools", (request.field? "tools").bind fun t => unlessEmpty (Tools.geminiToClaude t))])

/-- The chat completion request of a Gemini request; fails on a value that is no object. -/
def requestToOpenai (request : Json) (model : Bytes) : Except RelayError Json := do
  let contents ← request.valueD "contents" (.arr [])
  let messages ← (contents.array?.getD []).mapM messageToOpenai?
  let system := systemText request
  let systemMessages := if system.isEmpty then [] else [OpenAI.textMessage "system" system]
  let config := (request.objectField? "generationConfig").getD .null
  .ok (.objectWith
    [("model", .str model), ("messages", .arr (systemMessages ++ messages.filterMap id))]
    [("max_tokens", (OpenAI.positiveField? config "maxOutputTokens").map .int),
      ("temperature", config.field? "temperature"),
      ("top_p", config.field? "topP"),
      ("stop", fullArray? config "stopSequences"),
      ("tools", (request.field? "tools").bind fun t => unlessEmpty (Tools.geminiToOpenai t))])

/-! ## 2. Requests of Claude clients -/

/-- A part that holds a thought. -/
def thoughtPart (thought : Json) (signature : Option Bytes) : Json :=
  .objectWith [("text", thought), ("thought", .bool true)]
    [("thoughtSignature", signature.map .str)]

/-- A part that calls a function. -/
def callPart (name : Bytes) (args : Json) : Json :=
  .object [("functionCall", .object [("name", .str name), ("args", args)])]

/-- A part of plain text. -/
def textPart (text : Bytes) : Json :=
  .object [("text", .str text)]

/-- The response object of a tool answer: an object as it is, any other value wrapped. -/
def responseOf (content : Json) : Json :=
  if content.isObject then content else .object [("content", content)]

/-- The part of a block; an answer names the function whose call it answers, or the call itself when
    that is not known. -/
def partOfBlock? (names : Table Bytes Bytes) : ContentBlock → Option Json
  | .text t => if t.isEmpty then none else some (textPart t)
  | .image mediaType data =>
    some (.object [("inlineData",
      .object [("mimeType", .str mediaType), ("data", .str data)])])
  | .toolUse _ name input => some (callPart name (ContentBlock.inputOrEmpty input))
  | .toolResult id content =>
    some (.object [("functionResponse",
      .object [("name", .str ((Table.find? names id).getD id)),
        ("response", responseOf content)])])
  | .thinking (.str t) signature => some (thoughtPart (.str t) signature)
  | .thinking _ _ => none
  | .raw _ => none

/-- The parts of the content of a Claude message. -/
def partsOfContent (names : Table Bytes Bytes) : Json → List Json
  | .str s => [textPart s]
  | .arr blocks => blocks.filterMap fun b => partOfBlock? names (ContentBlock.ofClaude b)
  | _ => []

/-- The names of functions by the ids of their calls, with those of one more block. -/
def nameCall (names : Table Bytes Bytes) (block : Json) : Table Bytes Bytes :=
  if block.stringField "type" = "tool_use" then
    Table.insert names (block.stringField "id") (block.stringField "name")
  else names

/-- The names of functions by the ids of their calls, with those of one more message. -/
def nameCalls (names : Table Bytes Bytes) (message : Json) : Table Bytes Bytes :=
  ((message.arrayField? "content").getD []).foldl nameCall names

/-- The content of a Claude message, unless it has no parts. -/
def contentOfMessage? (names : Table Bytes Bytes) (message : Json) : Option Json :=
  let role : Bytes := if message.stringField "role" = "assistant" then "model" else "user"
  match partsOfContent names ((message.field? "content").getD .null) with
  | [] => none
  | parts => some (.object [("role", .str role), ("parts", .arr parts)])

/-- The contents of the messages. The calls of a message are known before its own answers. -/
def contentsOfMessages (names : Table Bytes Bytes) : List Json → List Json
  | [] => []
  | message :: rest =>
    let names := nameCalls names message
    (contentOfMessage? names message).toList ++ contentsOfMessages names rest

/-- The system prompt of a Claude request, whatever the types of its blocks. -/
def claudeSystemText : Json → Bytes
  | .str s => s
  | .arr items => textOfParts (.arr items)
  | _ => []

/-- The generation settings of a Claude request, in the order of the Gemini names. -/
def configOfClaude (request : Json) : Json :=
  .objectWith []
    [("maxOutputTokens", (OpenAI.positiveField? request "max_tokens").map .int),
      ("temperature", request.field? "temperature"),
      ("topP", request.field? "top_p"),
      ("topK", request.field? "top_k"),
      ("stopSequences", fullArray? request "stop_sequences")]

/-- The Gemini request of a Claude request; fails on a value that is no object. -/
def requestOfClaude (request : Json) : Except RelayError Json := do
  let messages ← request.valueD "messages" (.arr [])
  let system := claudeSystemText ((request.field? "system").getD .null)
  let config := configOfClaude request
  .ok (.objectWith
    [("contents", .arr (contentsOfMessages [] ((messages.array?.getD []).filter Json.isObject)))]
    [("systemInstruction",
        if system.isEmpty then none
        else some (.object [("parts", .arr [textPart system])])),
      ("generationConfig", if config = .obj [] then none else some config),
      ("tools", (request.field? "tools").bind fun t => unlessEmpty (Tools.claudeToGemini t))])

end ChatRelay.Gemini
