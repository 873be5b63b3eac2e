import ChatRelay.Claude.Content
import ChatRelay.Usage

/-!
# A completed reply

The reply of the assistant once it is complete, apart from the dialect it came in. The Claude
dialect reads and writes it directly (`ofClaude`, `toClaude`); the other dialects read it in their
own modules.
-/

namespace ChatRelay

structure Completion where
  /-- Empty when the reply has none. -/
  id : Bytes
  model : Bytes
  role : Role
  content : List ContentBlock
  /-- Claude's word for the end of the reply, or empty. -/
  stopReason : Bytes
  stopSequence : Option Bytes
  usage : Option Usage
  deriving DecidableEq

namespace Completion

/-- The usage that a reply reports under a key, if that is an object. -/
def usageOf? (reply : Json) (key : Bytes) : Option Usage :=
  (reply.objectField? key).map Usage.ofReport

/-- The reply that a Claude value describes; it must be an object. -/
def ofClaude (reply : Json) : Except RelayError Completion :=
  if reply.isObject then
    .ok {
      id := reply.stringField "id"
      model := reply.stringField "model"
      role := Role.ofText (reply.stringFieldD "role" "assistant")
      content := ((reply.arrayField? "content").getD []).map ContentBlock.ofClaude
      stopReason := reply.stringField "stop_reason"
      stopSequence := (reply.field? "stop_sequence").bind Json.string?
      usage := usageOf? reply "usage" }
  else .error (.undecodable "Claude response is not a JSON object" "claude response")

/-- The Claude value of a reply; `freshId` is the id of a reply without one. -/
def toClaude (c : Completion) (freshId : Bytes) : Json :=
  .objectWith
    [("id", .str (if c.id.isEmpty then freshId else c.id)), ("type", .str "message"),
      ("role", .str c.role.name), ("content", .arr (c.content.map ContentBlock.toClaude))]
    [("model", if c.model.isEmpty then none else some (.str c.model)),
      ("stop_reason", if c.stopReason.isEmpty then none else some (.str c.stopReason)),
      ("stop_sequence", c.stopSequence.map .str),
      ("usage", c.usage.map Usage.toClaude)]

end Completion

end ChatRelay
