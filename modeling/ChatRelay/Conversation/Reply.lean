import ChatRelay.Conversation.Item
import ChatRelay.Usage

/-!
# Replies of the Responses dialect

A reply of another dialect as a reply object of the Responses dialect: its text as output items, its
usage, and the id of the reply before it. `outputItems` reads the items of such a reply.
-/

namespace ChatRelay.Reply

/-- The reply object around an output. -/
def envelope (id model : Bytes) (output : List Item) (usage : Json) (previousId : Bytes) : Json :=
  .objectWith
    [("id", .str id), ("object", .str "response"), ("model", .str model),
      ("output", .arr (output.map Item.toJson)), ("status", .str "completed"),
      ("usage", (Usage.ofReport usage).toResponses)]
    [("previous_id", if previousId.isEmpty then none else some (.str previousId))]

/-- The text blocks of a Claude reply, an item each. -/
def itemsOfClaude (reply : Json) : List Item :=
  ((reply.arrayField? "content").getD []).filterMap fun (block : Json) =>
    if block.stringField "type" = "text" then some (Item.ofText (block.stringField "text"))
    else none

/-- The text of the first choice of a chat completion, as one item. -/
def itemsOfOpenai (reply : Json) : List Item :=
  (reply.headField? "choices").toList.map fun choice =>
    Item.ofText (((choice.field? "message").getD .null).stringField "content")

/-- The reply object for a Claude reply; fails on a value that is no object. -/
def ofClaude (reply : Json) (previousId id : Bytes) : Except RelayError Json := do
  let usage ← reply.valueD "usage" .null
  .ok (envelope id (reply.stringField "model") (itemsOfClaude reply) usage previousId)

/-- The reply object for a chat completion; fails on a value that is no object. -/
def ofOpenai (reply : Json) (previousId id : Bytes) : Except RelayError Json := do
  let usage ← reply.valueD "usage" .null
  .ok (envelope id (reply.stringField "model") (itemsOfOpenai reply) usage previousId)

/-- The output items of a reply object; an item without a role is the assistant's. -/
def outputItems (reply : Json) : List Item :=
  (((reply.arrayField? "output").getD []).filter Json.isObject).map fun element =>
    let item := Item.ofJson element
    if item.role.isEmpty then { item with role := "assistant" } else item

end ChatRelay.Reply
