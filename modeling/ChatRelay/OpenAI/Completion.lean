import ChatRelay.Claude.Completion
import ChatRelay.Json.Reader
import ChatRelay.StopReason

/-!
# Chat completions

A chat completion as a completed reply. Only its first choice counts. Tool arguments come as JSON
text; text that is not JSON stands for no arguments.
-/

namespace ChatRelay.OpenAI

/-- The input that the arguments of a tool call denote. -/
def inputOfArguments (arguments : Bytes) : Json :=
  (Json.parse? arguments).getD (.obj [])

/-- The block of one entry of a list of tool calls, if the entry is an object. -/
def blockOfCall (call : Json) : Option ContentBlock :=
  if call.isObject then
    let function := (call.field? "function").getD .null
    some (.toolUse (call.stringField "id") (function.stringField "name")
      (inputOfArguments (function.stringField "arguments")))
  else none

/-- The text of a chat message, unless it is empty. -/
def textOfMessage? (message : Json) : Option Bytes :=
  ((message.field? "content").bind Json.string?).filter (!·.isEmpty)

/-- The tool calls of a chat message. -/
def callsOfMessage (message : Json) : List ContentBlock :=
  ((message.arrayField? "tool_calls").getD []).filterMap blockOfCall

/-- The reply that a chat completion describes, under the given id. -/
def completionOf (reply : Json) (id : Bytes) : Completion :=
  let choice := reply.headField? "choices"
  let message := (choice.bind (·.field? "message")).getD .null
  let calls := callsOfMessage message
  { id
    model := reply.stringField "model"
    role := .assistant
    content := (textOfMessage? message).toList.map ContentBlock.text ++ calls
    stopReason :=
      match choice with
      | some c => StopReason.openaiToClaude (c.stringField "finish_reason") (!calls.isEmpty)
      | none => []
    stopSequence := none
    usage := Completion.usageOf? reply "usage" }

/-- The Claude value of a chat completion. -/
def completionToClaude (reply : Json) (id : Bytes) : Json :=
  (completionOf reply id).toClaude id

end ChatRelay.OpenAI
