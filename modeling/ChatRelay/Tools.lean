import ChatRelay.Json.Basic

/-!
# Tool definitions

How the tools that a client offers are described in the three dialects. The parameters of a tool are
a JSON schema; `cleanSchema` leaves out the keywords that the receiving dialect refuses.
-/

namespace ChatRelay.Tools

/-! ## 1. Schemas -/

/-- Who receives a schema. -/
inductive SchemaTarget where
  | openai
  | gemini
  deriving DecidableEq

/-- The keywords that a receiver refuses. -/
def SchemaTarget.denied : SchemaTarget → List Bytes
  | openai => ["$schema", "title", "examples", "additionalProperties"]
  | gemini =>
    ["$schema", "title", "examples", "additionalProperties", "default", "$id",
      "exclusiveMinimum", "exclusiveMaximum"]

/-- Whether the schema object says that its values are strings. -/
def isStringTyped (fields : List (Bytes × Json)) : Bool :=
  Table.find? fields "type" == some (.str "string")

/-- Whether a key of an object is left out: a refused keyword, or the format of a string. -/
def isLeftOut (target : SchemaTarget) (stringTyped : Bool) (key : Bytes) : Bool :=
  target.denied.contains key || (stringTyped && key == Bytes.ofString "format")

mutual

/-- The schema without what the receiver refuses, at any depth. -/
def cleanSchema (target : SchemaTarget) : Json → Json
  | .arr items => .arr (cleanItems target items)
  | .obj fields => .obj (cleanFields target (isStringTyped fields) fields)
  | .null => .null
  | .bool b => .bool b
  | .int n => .int n
  | .double x => .double x
  | .str s => .str s

/-- `cleanSchema` of every element. -/
def cleanItems (target : SchemaTarget) : List Json → List Json
  | [] => []
  | j :: rest => cleanSchema target j :: cleanItems target rest

/-- The fields that stay, each with its value cleaned. -/
def cleanFields (target : SchemaTarget) (stringTyped : Bool) :
    List (Bytes × Json) → List (Bytes × Json)
  | [] => []
  | (k, j) :: rest =>
    if isLeftOut target stringTyped k then cleanFields target stringTyped rest
    else (k, cleanSchema target j) :: cleanFields target stringTyped rest

end

/-! ## 2. Definitions -/

/-- The description of a tool, when it has one that is not empty. -/
def description? (tool : Json) : Option Json :=
  let text := tool.stringField "description"
  if text.isEmpty then none else some (.str text)

/-- The objects among the elements of an array; nothing of any other value. -/
def objectsOf (j : Json) : List Json :=
  (j.array?.getD []).filter Json.isObject

/-- The function definition of a chat completion request. -/
def chatFunction (tool parameters : Json) : Json :=
  .object [("type", .str "function"),
    ("function", .object [
      ("name", .str (tool.stringField "name")),
      ("description", .str (tool.stringField "description")),
      ("parameters", parameters)])]

/-- Claude tools for a chat completion request. -/
def claudeToOpenai (tools : Json) : Json :=
  .arr ((objectsOf tools).map fun tool =>
    chatFunction tool (cleanSchema .openai ((tool.field? "input_schema").getD .null)))

/-- Claude tools for a Gemini request: one entry that declares them all, or none. -/
def claudeToGemini (tools : Json) : Json :=
  let declarations := (objectsOf tools).map fun tool =>
    Json.objectWith
      [("name", .str (tool.stringField "name"))]
      [("description", description? tool),
        ("parameters", ((tool.field? "input_schema").filter (!·.isNull)).map
          (cleanSchema .gemini))]
  if declarations.isEmpty then .arr []
  else .arr [.object [("functionDeclarations", .arr declarations)]]

/-- The function declarations of Gemini tools. -/
def geminiDeclarations (tools : Json) : List Json :=
  (objectsOf tools).flatMap fun tool =>
    objectsOf ((tool.field? "functionDeclarations").getD .null)

/-- The schema of a tool without parameters. -/
def emptySchema : Json :=
  .object [("type", .str "object"), ("properties", .obj [])]

/-- Gemini tools for a Claude request. -/
def geminiToClaude (tools : Json) : Json :=
  .arr ((geminiDeclarations tools).map fun fn =>
    Json.objectWith
      [("name", .str (fn.stringField "name")),
        ("input_schema", ((fn.field? "parameters").filter (!·.isNull)).getD emptySchema)]
      [("description", description? fn)])

/-- Gemini tools for a chat completion request. -/
def geminiToOpenai (tools : Json) : Json :=
  .arr ((geminiDeclarations tools).map fun fn =>
    chatFunction fn ((fn.field? "parameters").getD .null))

end ChatRelay.Tools
