import ChatRelay.Dialect
import ChatRelay.Json.Basic

/-!
# Content of a message

The content of a message is a list of blocks. `ContentBlock.ofClaude` reads a block of the Claude
dialect and `toClaude` writes one; a block that is not understood is kept as it came, so that it can
be passed on. `Message` is a role with its blocks.
-/

namespace ChatRelay

/-- One unit of message content. -/
inductive ContentBlock where
  | text (text : Bytes)
  /-- An image by its base64 data. -/
  | image (mediaType data : Bytes)
  /-- A tool call. -/
  | toolUse (id name : Bytes) (input : Json)
  /-- The answer to a tool call; null content is no content. -/
  | toolResult (toolUseId : Bytes) (content : Json)
  /-- A thought, with the signature that its author gave it. -/
  | thinking (thought : Json) (signature : Option Bytes)
  /-- A block that is not understood. -/
  | raw (block : Json)
  deriving DecidableEq

namespace ContentBlock

/-- The image of a block, when its data are included. -/
def imageOf? (block : Json) : Option ContentBlock :=
  (block.objectField? "source").bind fun source =>
    if source.stringField "type" = "base64" then
      some (image (source.stringField "media_type") (source.stringField "data"))
    else none

/-- The block that a Claude value describes. -/
def ofClaude (block : Json) : ContentBlock :=
  let type := block.stringField "type"
  if type = "text" then text (block.stringField "text")
  else if type = "image" then (imageOf? block).getD (raw block)
  else if type = "tool_use" then
    toolUse (block.stringField "id") (block.stringField "name")
      ((block.field? "input").getD (.obj []))
  else if type = "tool_result" then
    toolResult (block.stringField "tool_use_id") ((block.field? "content").getD .null)
  else if type = "thinking" then
    thinking ((block.field? "thinking").getD .null) ((block.field? "signature").bind Json.string?)
  else raw block

/-- A null input stands for no arguments. -/
def inputOrEmpty (input : Json) : Json :=
  if input.isNull then .obj [] else input

/-- The Claude value of a block. -/
def toClaude : ContentBlock → Json
  | text t => .object [("type", .str "text"), ("text", .str t)]
  | image mediaType data =>
    .object [("type", .str "image"),
      ("source", .object [("type", .str "base64"), ("media_type", .str mediaType),
        ("data", .str data)])]
  | toolUse id name input =>
    .object [("type", .str "tool_use"), ("id", .str id), ("name", .str name),
      ("input", inputOrEmpty input)]
  | toolResult toolUseId content =>
    .objectWith [("type", .str "tool_result"), ("tool_use_id", .str toolUseId)]
      [("content", if content.isNull then none else some content)]
  | thinking thought signature =>
    .objectWith [("type", .str "thinking"), ("thinking", thought)]
      [("signature", signature.map .str)]
  | raw block => block

end ContentBlock

/-- One message of a conversation. -/
structure Message where
  role : Role
  content : List ContentBlock
  deriving DecidableEq

namespace Message

/-- The message that a Claude value describes; a string stands for one text block. -/
def ofClaude (message : Json) : Message where
  role := Role.ofText (message.stringFieldD "role" "user")
  content :=
    match message.field? "content" with
    | some (.str s) => [.text s]
    | some (.arr blocks) => blocks.map ContentBlock.ofClaude
    | _ => []

/-- The Claude value of a message. -/
def toClaude (m : Message) : Json :=
  .object [("role", .str m.role.name), ("content", .arr (m.content.map ContentBlock.toClaude))]

end Message

end ChatRelay
