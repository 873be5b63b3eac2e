import ChatRelay.Json.Basic

/-!
# Conversation items

The Responses dialect keeps a conversation as a list of items, each with a type, a role and a
content. `Item.ofInput` reads the input of a request; `claudeMessage?` and `chatMessage?` are the
message that an item comes to, if any. Tool items come to nothing. An item of an unknown type is an
error in both dialects, but an empty text is one only on the way to Claude.
-/

namespace ChatRelay

/-- One item of a conversation. -/
structure Item where
  type : Bytes
  /-- Empty when the item has none. -/
  role : Bytes
  content : Json
  deriving DecidableEq

namespace Item

/-! ## 1. Reading and writing -/

def toJson (i : Item) : Json :=
  .objectWith [("type", .str i.type), ("content", i.content)]
    [("role", if i.role.isEmpty then none else some (.str i.role))]

/-- The item that a value describes; what is missing is empty. -/
def ofJson (j : Json) : Item where
  type := j.stringField "type"
  role := j.stringField "role"
  content := (j.field? "content").getD .null

/-- An item of plain text without a role. -/
def ofText (text : Bytes) : Item := ⟨"text", [], .str text⟩

/-- What a value is called in an error. -/
def typeName : Json → Bytes
  | .null => "null"
  | .bool _ => "boolean"
  | .int _ | .double _ => "number"
  | .str _ => "string"
  | .arr _ => "array"
  | .obj _ => "object"

/-- The items of the input of a request: none of null, one of a string, one for each object of an
    array. -/
def ofInput : Json → Except RelayError (List Item)
  | .null => .ok []
  | .str s => .ok [ofText s]
  | .arr items => .ok ((items.filter Json.isObject).map ofJson)
  | j => .error (.invalid (Bytes.ofString "Unsupported input type: " ++ typeName j) "input" [])

/-! ## 2. Text -/

/-- The text of a part of a content, if it is a text part. -/
def partText? (part : Json) : Option Bytes :=
  let type := part.stringField "type"
  if type = "input_text" ∨ type = "output_text" then (part.field? "text").bind Json.string?
  else none

/-- The text of a content: a string, or the text parts of an array, one a line. -/
def textOfContent : Json → Bytes
  | .str s => s
  | .arr parts => Bytes.joinLines (parts.filterMap partText?)
  | _ => []

/-- The role of the message of an item; without one it is the user's. -/
def roleOrUser (i : Item) : Bytes :=
  if i.role.isEmpty then "user" else i.role

/-! ## 3. Messages -/

/-- Whether the item records a tool call or its answer. -/
def isToolItem (i : Item) : Bool :=
  i.type == Bytes.ofString "tool_call" || i.type == Bytes.ofString "tool_result"

/-- The Claude message of an item. -/
def claudeMessage? (i : Item) : Except RelayError (Option Json) :=
  let text := textOfContent i.content
  let message : Json :=
    .object [("role", .str i.roleOrUser),
      ("content", .arr [.object [("type", .str "text"), ("text", .str text)]])]
  if i.type = "message" then .ok (if text.isEmpty then none else some message)
  else if i.type = "text" then
    if text.isEmpty then .error (.invalid "text item content must not be empty" "content" [])
    else .ok (some message)
  else if i.isToolItem then .ok none
  else .error (.unknownItem i.type)

/-- The chat message of an item. -/
def chatMessage? (i : Item) : Except RelayError (Option Json) :=
  let text := textOfContent i.content
  if i.type = "message" ∨ i.type = "text" then
    .ok (if text.isEmpty then none
      else some (.object [("role", .str i.roleOrUser), ("content", .str text)]))
  else if i.isToolItem then .ok none
  else .error (.unknownItem i.type)

/-! ## 4. Conversations -/

/-- The Claude messages of a history and the new input. The history is converted first, so its
    errors come before those of the input. -/
def claudeMessages (history : List Item) (input : Json) : Except RelayError (List Json) := do
  let earlier ← history.mapM claudeMessage?
  let later ← (← ofInput input).mapM claudeMessage?
  .ok ((earlier ++ later).filterMap id)

/-- The chat messages of the instructions, a history and the new input. -/
def chatMessages (history : List Item) (input : Json) (instructions : Bytes) :
    Except RelayError (List Json) := do
  let earlier ← history.mapM chatMessage?
  let later ← (← ofInput input).mapM chatMessage?
  let system : List Json :=
    if instructions.isEmpty then []
    else [.object [("role", .str "system"), ("content", .str instructions)]]
  .ok (system ++ (earlier ++ later).filterMap id)

end Item

end ChatRelay
