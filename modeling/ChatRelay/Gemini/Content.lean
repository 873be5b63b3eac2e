import ChatRelay.Claude.Content
import ChatRelay.Json.Printer

/-!
# Gemini contents

A content is what one side says in one turn: a role and a list of parts. A part may hold a text
(which may be a thought), inline data, a function call and a function response, in any combination.
Function calls have no ids here; where the other dialect needs one it is made from the position of
the part.
-/

namespace ChatRelay.Gemini

/-! ## 1. Parts -/

/-- The texts of the parts that are not empty, one a line. -/
def textOfParts (parts : Json) : Bytes :=
  Bytes.joinLines (((parts.array?.getD []).map (·.stringField "text")).filter (!·.isEmpty))

/-- The system prompt of a request. -/
def systemText (request : Json) : Bytes :=
  match request.objectField? "systemInstruction" with
  | some instruction => textOfParts ((instruction.field? "parts").getD (.arr []))
  | none => []

/-- The role name of a content in the other dialects. -/
def roleName (role : Bytes) : Bytes :=
  if role = "model" then "assistant" else if role = [] then "user" else role

/-- The signature of a thought, unless it is empty. -/
def signature? (part : Json) : Option Bytes :=
  let signature := part.stringField "thoughtSignature"
  if signature.isEmpty then none else some signature

/-- The id of the tool call made from the part at a position. -/
def toolUseId (position : Nat) : Bytes :=
  Bytes.ofString "toolu_" ++ Bytes.ofNat position

/-- The id of the chat tool call made from the part at a position. -/
def callId (position : Nat) : Bytes :=
  Bytes.ofString "call_" ++ Bytes.ofNat position

/-- The objects among the parts of a content, with their positions; `none` for a content without
    parts. -/
def partsOf? (content : Json) : Option (List (Json × Nat)) :=
  match content.arrayField? "parts" with
  | none | some [] => none
  | some parts => some (parts.zipIdx.filter fun p => p.1.isObject)

/-! ## 2. As a Claude message -/

/-- The text block or thought of a part, unless its text is empty. -/
def textBlock? (part : Json) : Option Json :=
  let text := part.stringField "text"
  if text.isEmpty then none
  else if part.boolField "thought" then
    some (ContentBlock.thinking (.str text) (signature? part)).toClaude
  else some (ContentBlock.text text).toClaude

/-- The image of a part with inline data. -/
def imageBlock? (part : Json) : Option Json :=
  (part.objectField? "inlineData").map fun data =>
    (ContentBlock.image (data.stringField "mimeType") (data.stringField "data")).toClaude

/-- The tool call of a part with a function call. -/
def toolUseBlock? (part : Json) (position : Nat) : Option Json :=
  (part.objectField? "functionCall").map fun call =>
    .object [("type", .str "tool_use"), ("id", .str (toolUseId position)),
      ("name", .str (call.stringField "name")), ("input", (call.field? "args").getD (.obj []))]

/-- The tool answer of a part with a function response; it names the function, not the call. -/
def toolResultBlock? (part : Json) : Option Json :=
  (part.objectField? "functionResponse").map fun response =>
    .object [("type", .str "tool_result"), ("tool_use_id", .str (response.stringField "name")),
      ("content", (response.field? "response").getD .null)]

/-- The Claude blocks of the part at a position. -/
def blocksOfPart (part : Json) (position : Nat) : List Json :=
  (textBlock? part).toList ++ (imageBlock? part).toList ++
    (toolUseBlock? part position).toList ++ (toolResultBlock? part).toList

/-- The Claude message of a content; `none` when there is nothing in it. -/
def messageToClaude? (content : Json) : Option Json :=
  (partsOf? content).bind fun parts =>
    match parts.flatMap fun p => blocksOfPart p.1 p.2 with
    | [] => none
    | blocks =>
      some (.object [("role", .str (roleName (content.stringField "role"))),
        ("content", .arr blocks)])

/-! ## 3. As a chat message -/

/-- The chat tool call of a part with a function call. -/
def toolCall? (part : Json) (position : Nat) : Except RelayError (Option Json) :=
  match part.objectField? "functionCall" with
  | none => .ok none
  | some call => do
    let arguments ← ((call.field? "args").getD .null).dump
    .ok (some (.object [("id", .str (callId position)), ("type", .str "function"),
      ("function", .object [("name", .str (call.stringField "name")),
        ("arguments", .str arguments)])]))

/-- The chat message of a content; `none` when it has no parts. A content with a function response
    becomes the answer to that function, the last one if there are several, and nothing else of it
    is kept. -/
def messageToOpenai? (content : Json) : Except RelayError (Option Json) :=
  match partsOf? content with
  | none => .ok none
  | some parts => do
    let texts := (parts.map fun p => p.1.stringField "text").filter (!·.isEmpty)
    let calls ← parts.mapM fun p => toolCall? p.1 p.2
    match (parts.filterMap fun p => p.1.objectField? "functionResponse").getLast? with
    | some response =>
      let text ← ((response.field? "response").getD .null).textOrDump
      .ok (some (.object [("role", .str "tool"),
        ("tool_call_id", .str (response.stringField "name")), ("content", .str text)]))
    | none =>
      let calls := calls.filterMap id
      .ok (some (.objectWith
        [("role", .str (roleName (content.stringField "role"))),
          ("content",
            if texts.isEmpty && !calls.isEmpty then .null else .str (Bytes.joinLines texts))]
        [("tool_calls", if calls.isEmpty then none else some (.arr calls))]))

end ChatRelay.Gemini
