import Mathlib.Algebra.Group.Int.Defs
import ChatRelay.Gemini.Request
import ChatRelay.Proofs.Fallible
import ChatRelay.Proofs.JsonText
import ChatRelay.Proofs.Objects

/-!
# Requests there and back

A Claude request that the Gemini dialect can express (`PortableRequest`) comes back as it was when
it is converted to that dialect and back: `requestToClaude_requestOfClaude`.

The two conversions are inverted part by part, each on the values that it can carry: a block and its
part (`PortableBlock`), a message and its content, a tool and its declaration, the settings. The
request follows because an object is known by its fields.
-/

namespace ChatRelay.Gemini

/-! ## 1. What both dialects express -/

/-- A block that a part of a content carries as it is. -/
inductive PortableBlock : ContentBlock → Prop where
  | text {text : Bytes} (full : text ≠ []) : PortableBlock (.text text)
  | image (mediaType data : Bytes) : PortableBlock (.image mediaType data)
  | thinking {thought : Bytes} {signature : Option Bytes} (full : thought ≠ [])
      (signed : signature ≠ some []) : PortableBlock (.thinking (.str thought) signature)

/-- A message of the user or the assistant that holds such blocks and nothing else. -/
def PortableMessage (message : Json) : Prop :=
  ∃ (role : Bytes) (blocks : List ContentBlock), (role = "user" ∨ role = "assistant") ∧
    blocks ≠ [] ∧ (∀ block ∈ blocks, PortableBlock block) ∧
    message = .object [("role", .str role), ("content", .arr (blocks.map ContentBlock.toClaude))]

/-- A tool with a schema that Gemini accepts as it is, and with a description or none. -/
def PortableTool (tool : Json) : Prop :=
  ∃ (name : Bytes) (schema : Json) (description : Option Bytes),
    schema ≠ .null ∧ Tools.cleanSchema .gemini schema = schema ∧ description ≠ some [] ∧
    tool = .objectWith [("name", .str name), ("input_schema", schema)]
      [("description", description.map .str)]

/-- The keys of a request that have a place in both dialects. -/
def portableKeys : List Bytes :=
  ["model", "messages", "system", "max_tokens", "temperature", "top_p", "top_k", "stop_sequences",
    "tools"]

/-- **A Claude request that both dialects express.** It has a model and messages; what else it has
    is of the right kind, and `temperature`, `top_p` and `top_k` are any values. -/
structure PortableRequest (request : Json) : Prop where
  keys : ∃ fields, request = .obj fields ∧ Table.Sorted fields ∧
    ∀ field ∈ fields, field.1 ∈ portableKeys
  model : ∃ model, request.field? "model" = some (.str model)
  messages : ∃ messages, request.field? "messages" = some (.arr messages) ∧
    ∀ message ∈ messages, PortableMessage message
  system : ∀ value, request.field? "system" = some value →
    ∃ text, value = .str text ∧ text ≠ []
  maxTokens : ∀ value, request.field? "max_tokens" = some value →
    ∃ n, value = .int n ∧ 1 ≤ n ∧ n ≤ 2 ^ 63 - 1
  stopSequences : ∀ value, request.field? "stop_sequences" = some value →
    ∃ items, value = .arr items ∧ items ≠ []
  tools : ∀ value, request.field? "tools" = some value →
    ∃ tools, value = .arr tools ∧ tools ≠ [] ∧ ∀ tool ∈ tools, PortableTool tool

/-! ## 2. Blocks and parts -/

/-- **A block and its part**: each is what the other comes to, at any position. -/
structure Mirrors (block : ContentBlock) (part : Json) : Prop where
  partOf : ∀ names, partOfBlock? names (ContentBlock.ofClaude block.toClaude) = some part
  isObject : part.isObject = true
  blocksOf : ∀ position, blocksOfPart part position = [block.toClaude]

/-! What is read out of a thought again. -/

theorem stringField_text_thoughtPart (text : Bytes) (signature : Option Bytes) :
    (thoughtPart (.str text) signature).stringField "text" = text := by
  cases signature <;> rfl

theorem boolField_thought_thoughtPart (text : Bytes) (signature : Option Bytes) :
    (thoughtPart (.str text) signature).boolField "thought" = true := by
  cases signature <;> rfl

theorem signature?_thoughtPart (text : Bytes) {signature : Option Bytes}
    (signed : signature ≠ some []) :
    signature? (thoughtPart (.str text) signature) = signature := by
  cases signature with
  | none => rfl
  | some bytes =>
    show (if bytes.isEmpty then none else some bytes) = _
    cases bytes with
    | nil => exact absurd rfl signed
    | cons b bytes => rfl

theorem PortableBlock.exists_part {block : ContentBlock} (h : PortableBlock block) :
    ∃ part, Mirrors block part := by
  cases h with
  | @text text full =>
    have hnot_empty : text.isEmpty = false := List.isEmpty_eq_false_iff.mpr full
    refine ⟨textPart text, fun names => ?_, rfl, fun position => ?_⟩
    · show (if text.isEmpty then none else some (textPart text)) = _
      rw [hnot_empty]
      rfl
    · have htext : textBlock? (textPart text) = some (ContentBlock.text text).toClaude := by
        show (if text.isEmpty then none else _) = _
        rw [hnot_empty]
        rfl
      rw [blocksOfPart, htext]
      rfl
  | image mediaType data => exact ⟨_, fun _ => rfl, rfl, fun _ => rfl⟩
  | @thinking thought signature full signed =>
    have hnot_empty : thought.isEmpty = false := List.isEmpty_eq_false_iff.mpr full
    refine ⟨thoughtPart (.str thought) signature, fun names => ?_, rfl, fun position => ?_⟩
    · cases signature <;> rfl
    · have hthought : textBlock? (thoughtPart (.str thought) signature) =
          some (ContentBlock.thinking (.str thought) signature).toClaude := by
        rw [textBlock?, stringField_text_thoughtPart, boolField_thought_thoughtPart,
          signature?_thoughtPart _ signed, hnot_empty]
        rfl
      rw [blocksOfPart, hthought]
      cases signature <;> rfl

/-- Blocks and their parts, one after the other. -/
structure MirrorLists (blocks : List ContentBlock) (parts : List Json) : Prop where
  partsOf : ∀ names, partsOfContent names (.arr (blocks.map ContentBlock.toClaude)) = parts
  areObjects : ∀ part ∈ parts, part.isObject = true
  blocksOf : ∀ position, (parts.zipIdx position).flatMap (fun p => blocksOfPart p.1 p.2) =
    blocks.map ContentBlock.toClaude

theorem exists_parts {blocks : List ContentBlock} (h : ∀ block ∈ blocks, PortableBlock block) :
    ∃ parts, MirrorLists blocks parts := by
  induction blocks with
  | nil => exact ⟨[], fun _ => rfl, List.forall_mem_nil _, fun _ => rfl⟩
  | cons block blocks ih =>
    obtain ⟨hblock, hblocks⟩ := List.forall_mem_cons.mp h
    obtain ⟨part, hpart⟩ := hblock.exists_part
    obtain ⟨parts, hparts⟩ := ih hblocks
    refine ⟨part :: parts, fun names => ?_, ?_, fun position => ?_⟩
    · rw [List.map_cons, partsOfContent, List.filterMap_cons, hpart.partOf names]
      exact congrArg (part :: ·) (hparts.partsOf names)
    · exact List.forall_mem_cons.mpr ⟨hpart.isObject, hparts.areObjects⟩
    · rw [List.zipIdx_cons, List.flatMap_cons, hpart.blocksOf, hparts.blocksOf]
      rfl

/-! ## 3. Messages and contents -/

/-- A message and its content, whatever calls have names. -/
theorem PortableMessage.exists_content {message : Json} (h : PortableMessage message) :
    ∃ content, (∀ names, contentOfMessage? names message = some content) ∧
      messageToClaude? content = some message := by
  obtain ⟨role, blocks, hrole, hne, hblocks, rfl⟩ := h
  obtain ⟨parts, hparts⟩ := exists_parts hblocks
  have hparts_ne : parts ≠ [] := by
    intro hnil
    have hblocksOf := hparts.blocksOf 0
    rw [hnil] at hblocksOf
    exact hne (List.map_eq_nil_iff.mp hblocksOf.symm)
  have hall : (parts.zipIdx.filter fun p => p.1.isObject) = parts.zipIdx := by
    refine List.filter_eq_self.mpr fun p hp => ?_
    exact hparts.areObjects p.1 (List.fst_mem_of_mem_zipIdx hp)
  obtain ⟨part, rest, rfl⟩ := List.exists_cons_of_ne_nil hparts_ne
  obtain ⟨block, others, rfl⟩ := List.exists_cons_of_ne_nil hne
  have hback : ∃ sender : Bytes,
      (if role = "assistant" then ("model" : Bytes) else "user") = sender ∧
        roleName sender = role := by
    rcases hrole with rfl | rfl
    · exact ⟨"user", rfl, rfl⟩
    · exact ⟨"model", rfl, rfl⟩
  obtain ⟨sender, hsender, hback⟩ := hback
  refine ⟨.object [("role", .str sender), ("parts", .arr (part :: rest))], fun names => ?_, ?_⟩
  · have hpartsOf : partsOfContent names (((Json.object [("role", .str role),
        ("content", .arr ((block :: others).map ContentBlock.toClaude))]).field? "content").getD
          .null) = part :: rest := hparts.partsOf names
    rw [← hsender, contentOfMessage?, hpartsOf]
    rfl
  · have hpartsOf? : partsOf? (.object [("role", .str sender), ("parts", .arr (part :: rest))]) =
        some ((part :: rest).zipIdx.filter fun p => p.1.isObject) := rfl
    have hsenderOf : (Json.object [("role", .str sender),
        ("parts", .arr (part :: rest))]).stringField "role" = sender := rfl
    rw [messageToClaude?, hpartsOf?, Option.bind_some, hall, hparts.blocksOf 0, hsenderOf, hback]
    rfl

/-- **The messages of a conversation and its contents.** -/
theorem exists_contents {messages : List Json} (h : ∀ message ∈ messages, PortableMessage message) :
    ∃ contents, (∀ names, contentsOfMessages names messages = contents) ∧
      contents.filterMap messageToClaude? = messages := by
  induction messages with
  | nil => exact ⟨[], fun _ => rfl, rfl⟩
  | cons message messages ih =>
    obtain ⟨hmessage, hmessages⟩ := List.forall_mem_cons.mp h
    obtain ⟨content, hcontent, hback⟩ := hmessage.exists_content
    obtain ⟨contents, hcontents, hbacks⟩ := ih hmessages
    refine ⟨content :: contents, fun names => ?_, ?_⟩
    · rw [contentsOfMessages, hcontent, hcontents]
      rfl
    · rw [List.filterMap_cons_some hback, hbacks]

theorem PortableMessage.isObject {message : Json} (h : PortableMessage message) :
    message.isObject = true := by
  obtain ⟨role, blocks, -, -, -, rfl⟩ := h
  rfl

/-! ## 4. Tools and declarations -/

/-- The declaration of a Claude tool. -/
def declarationOf (tool : Json) : Json :=
  .objectWith [("name", .str (tool.stringField "name"))]
    [("description", Tools.description? tool),
      ("parameters", ((tool.field? "input_schema").filter (!·.isNull)).map
        (Tools.cleanSchema .gemini))]

/-- The Claude tool of a declaration. -/
def toolOf (declaration : Json) : Json :=
  .objectWith
    [("name", .str (declaration.stringField "name")),
      ("input_schema",
        ((declaration.field? "parameters").filter (!·.isNull)).getD Tools.emptySchema)]
    [("description", Tools.description? declaration)]

/-- **A tool comes back from its declaration.** -/
theorem PortableTool.toolOf_declarationOf {tool : Json} (h : PortableTool tool) :
    toolOf (declarationOf tool) = tool := by
  obtain ⟨name, schema, description, hschema, hclean, hdescription, rfl⟩ := h
  have hfull : (some schema).filter (fun j => !j.isNull) = some schema := by
    cases schema with
    | null => exact absurd rfl hschema
    | _ => rfl
  have hdescribed (j : Json) (hj : j.field? "description" = description.map .str) :
      Tools.description? j = description.map .str := by
    rw [Tools.description?, Json.stringField, Json.stringFieldD, hj]
    cases description with
    | none => rfl
    | some text =>
      cases text with
      | nil => exact absurd rfl hdescription
      | cons b text => rfl
  have htool : declarationOf (.objectWith [("name", .str name), ("input_schema", schema)]
      [("description", description.map .str)]) =
      .objectWith [("name", .str name)]
        [("description", description.map .str), ("parameters", some schema)] := by
    have hname : (Json.objectWith [("name", .str name), ("input_schema", schema)]
        [("description", description.map .str)]).stringField "name" = name := by
      cases description <;> rfl
    have hschemaOf : (Json.objectWith [("name", .str name), ("input_schema", schema)]
        [("description", description.map .str)]).field? "input_schema" = some schema := by
      cases description <;> rfl
    rw [declarationOf, hname, hschemaOf, hfull, hdescribed _ (by cases description <;> rfl),
      Option.map_some, hclean]
  have hname : (Json.objectWith [("name", .str name)]
      [("description", description.map .str), ("parameters", some schema)]).stringField "name" =
        name := by
    cases description <;> rfl
  have hparameters : (Json.objectWith [("name", .str name)]
      [("description", description.map .str), ("parameters", some schema)]).field? "parameters" =
        some schema := by
    cases description <;> rfl
  rw [htool, toolOf, hname, hparameters, hfull, hdescribed _ (by cases description <;> rfl)]
  rfl

/-- **The tools and what declares them.** -/
theorem exists_declared {tools : List Json} (hne : tools ≠ [])
    (h : ∀ tool ∈ tools, PortableTool tool) :
    ∃ declared, unlessEmpty (Tools.claudeToGemini (.arr tools)) = some declared ∧
      unlessEmpty (Tools.geminiToClaude declared) = some (.arr tools) := by
  have hobjects : tools.filter Json.isObject = tools := by
    refine List.filter_eq_self.mpr fun tool htool => ?_
    obtain ⟨name, schema, description, -, -, -, rfl⟩ := h tool htool
    rfl
  have hdeclarations :
      (tools.map declarationOf).filter Json.isObject = tools.map declarationOf := by
    refine List.filter_eq_self.mpr fun declaration hdeclaration => ?_
    obtain ⟨tool, -, rfl⟩ := List.mem_map.mp hdeclaration
    rfl
  have hback : (tools.map declarationOf).map toolOf = tools := by
    rw [List.map_map]
    exact (List.map_congr_left fun tool htool => (h tool htool).toolOf_declarationOf).trans
      (List.map_id tools)
  refine ⟨.arr [.object [("functionDeclarations", .arr (tools.map declarationOf))]], ?_, ?_⟩
  · have hclaude : Tools.claudeToGemini (.arr tools) =
        if (tools.map declarationOf).isEmpty then .arr []
        else .arr [.object [("functionDeclarations", .arr (tools.map declarationOf))]] := by
      unfold Tools.claudeToGemini Tools.objectsOf
      rw [show (Json.arr tools).array?.getD [] = tools from rfl, hobjects]
      rfl
    have hfull : ¬ (tools.map declarationOf).isEmpty = true := by simp [hne]
    rw [hclaude, if_neg hfull, unlessEmpty, if_neg]
    exact fun heq => List.cons_ne_nil _ _ (Json.arr.inj heq)
  · have hgemini : Tools.geminiToClaude
        (.arr [.object [("functionDeclarations", .arr (tools.map declarationOf))]]) =
        .arr (((tools.map declarationOf).filter Json.isObject ++ []).map toolOf) := rfl
    rw [hgemini, List.append_nil, hdeclarations, hback, unlessEmpty, if_neg]
    exact fun heq => hne (Json.arr.inj heq)

/-! ## 5. Settings -/

/-- The settings of a Claude request under their Gemini names. -/
def settingFields (request : Json) : List (Bytes × Option Json) :=
  [("maxOutputTokens", (OpenAI.positiveField? request "max_tokens").map .int),
    ("temperature", request.field? "temperature"), ("topP", request.field? "top_p"),
    ("topK", request.field? "top_k"), ("stopSequences", fullArray? request "stop_sequences")]

/-- The settings as the Gemini request holds them: it leaves them out when there are none. -/
def settings (request : Json) : Json :=
  ((if configOfClaude request = .obj [] then none else some (configOfClaude request)).bind
    Json.object?).getD .null

theorem field?_settings (request : Json) (key : Bytes) :
    (settings request).field? key = (Table.find? (settingFields request) key).bind id := by
  have hkeys : ((settingFields request).map (·.1)).Nodup := by
    simp only [settingFields, List.map_cons, List.map_nil]
    decide
  have hconfig : (configOfClaude request).field? key =
      (Table.find? (settingFields request) key).bind id :=
    @Json.field?_objectWith_of_nodup [] (settingFields request) hkeys key
  rw [← hconfig, settings]
  by_cases hempty : configOfClaude request = .obj []
  · rw [if_pos hempty, hempty]
    rfl
  · rw [if_neg hempty]
    rfl

namespace PortableRequest

variable {request : Json}

/-- The text of the system prompt comes back. -/
theorem system_eq (h : PortableRequest request) {text : Bytes}
    (htext : text = claudeSystemText ((request.field? "system").getD .null)) :
    (if text.isEmpty then none else some (Json.str text)) = request.field? "system" := by
  subst htext
  cases hsystem : request.field? "system" with
  | none => rfl
  | some value =>
    obtain ⟨text, rfl, hfull⟩ := h.system value hsystem
    show (if text.isEmpty then none else some (Json.str text)) = _
    rw [if_neg (by simpa using hfull)]

theorem maxTokens_eq (h : PortableRequest request) :
    (OpenAI.positiveField? (settings request) "maxOutputTokens").map Json.int =
      request.field? "max_tokens" := by
  have hsetting : (settings request).field? "maxOutputTokens" =
      (OpenAI.positiveField? request "max_tokens").map Json.int := field?_settings request _
  unfold OpenAI.positiveField? Json.intField? at *
  rw [hsetting]
  cases hvalue : request.field? "max_tokens" with
  | none => rfl
  | some value =>
    obtain ⟨n, rfl, hpos, hfits⟩ := h.maxTokens value hvalue
    have hword : Word.toInt64 n = n := Word.toInt64_eq (by omega) (by omega)
    have hread : (some (Json.int n)).bind Json.int? = some n := congrArg some hword
    have hkept : (some n).filter (fun n : Int => decide (0 < n)) = some n := by
      simp only [Option.filter_some, decide_eq_true_eq]
      exact if_pos (by omega)
    rw [hread, hkept, Option.map_some, hread, hkept, Option.map_some]

theorem stopSequences_eq (h : PortableRequest request) :
    fullArray? (settings request) "stopSequences" = request.field? "stop_sequences" := by
  have hfull : fullArray? request "stop_sequences" = request.field? "stop_sequences" := by
    unfold fullArray?
    cases hvalue : request.field? "stop_sequences" with
    | none => rfl
    | some value =>
      obtain ⟨items, rfl, hne⟩ := h.stopSequences value hvalue
      cases items with
      | nil => exact absurd rfl hne
      | cons item items => rfl
  have hsetting : (settings request).field? "stopSequences" =
      fullArray? request "stop_sequences" := field?_settings request _
  rw [fullArray?, hsetting, hfull, ← fullArray?, hfull]

/-- The tools of the Gemini request, and those of the request that it comes back as. -/
theorem tools_eq (h : PortableRequest request) :
    (((request.field? "tools").bind fun t => unlessEmpty (Tools.claudeToGemini t)).bind fun t =>
      unlessEmpty (Tools.geminiToClaude t)) = request.field? "tools" := by
  cases hvalue : request.field? "tools" with
  | none => rfl
  | some value =>
    obtain ⟨tools, rfl, hne, htools⟩ := h.tools value hvalue
    obtain ⟨declared, hdeclared, hback⟩ := exists_declared hne htools
    rw [Option.bind_some, hdeclared, Option.bind_some, hback]

end PortableRequest

/-! ## 6. Requests -/

/-- What the Gemini request holds besides its contents. -/
def furtherFields (request : Json) : List (Bytes × Option Json) :=
  let system := claudeSystemText ((request.field? "system").getD .null)
  [("systemInstruction",
      if system.isEmpty then none else some (.object [("parts", .arr [textPart system])])),
    ("generationConfig",
      if configOfClaude request = .obj [] then none else some (configOfClaude request)),
    ("tools", (request.field? "tools").bind fun t => unlessEmpty (Tools.claudeToGemini t))]

/-- The Gemini request with these contents. -/
def converted (request : Json) (contents : List Json) : Json :=
  .objectWith [("contents", .arr contents)] (furtherFields request)

theorem field?_converted (request : Json) (contents : List Json) (key : Bytes) :
    (converted request contents).field? key =
      (Table.find? [(Bytes.ofString "contents", Json.arr contents)] key).or
        ((Table.find? (furtherFields request) key).bind id) := by
  refine Json.field?_objectWith_of_nodup ?_ key
  simp only [furtherFields, List.map_cons, List.map_nil, List.singleton_append]
  decide

theorem systemText_converted (request : Json) (contents : List Json) :
    systemText (converted request contents) =
      claudeSystemText ((request.field? "system").getD .null) := by
  have hinstruction : (converted request contents).field? "systemInstruction" =
      if (claudeSystemText ((request.field? "system").getD .null)).isEmpty then none
      else some (.object [("parts",
        .arr [textPart (claudeSystemText ((request.field? "system").getD .null))])]) :=
    field?_converted request contents _
  rw [systemText, Json.objectField?, hinstruction]
  generalize claudeSystemText ((request.field? "system").getD .null) = text
  by_cases hempty : text.isEmpty = true
  · rw [if_pos hempty]
    exact (List.isEmpty_iff.mp hempty).symm
  · rw [if_neg hempty]
    have hkept : [text].filter (fun t => !t.isEmpty) = [text] := by simp [hempty]
    show Bytes.joinLines ([text].filter fun t => !t.isEmpty) = text
    rw [hkept]
    simp [Bytes.joinLines]

/-- What the request that comes back holds besides its model and its messages. -/
def backFields (request : Json) (contents : List Json) : List (Bytes × Option Json) :=
  let system := systemText (converted request contents)
  [("system", if system.isEmpty then none else some (.str system)),
    ("max_tokens", (OpenAI.positiveField? (settings request) "maxOutputTokens").map .int),
    ("temperature", (settings request).field? "temperature"),
    ("top_p", (settings request).field? "topP"),
    ("top_k", (settings request).field? "topK"),
    ("stop_sequences", fullArray? (settings request) "stopSequences"),
    ("tools", ((converted request contents).field? "tools").bind fun t =>
      unlessEmpty (Tools.geminiToClaude t))]

theorem requestToClaude_converted (request : Json) (contents : List Json) (model : Bytes) :
    requestToClaude (converted request contents) model =
      .ok (.objectWith
        [("model", .str model), ("messages", .arr (contents.filterMap messageToClaude?))]
        (backFields request contents)) := by
  have hcontents : (converted request contents).valueD "contents" (.arr []) =
      .ok (.arr contents) := by
    show Except.ok (((converted request contents).field? "contents").getD (.arr [])) = _
    rw [field?_converted]
    rfl
  have hsettings : ((converted request contents).objectField? "generationConfig").getD .null =
      settings request := by
    rw [Json.objectField?, field?_converted]
    rfl
  unfold requestToClaude
  rw [hcontents, hsettings]
  rfl

/-- The fields of a request besides its model and its messages. -/
def otherFields (request : Json) : List (Bytes × Option Json) :=
  [("system", request.field? "system"), ("max_tokens", request.field? "max_tokens"),
    ("temperature", request.field? "temperature"), ("top_p", request.field? "top_p"),
    ("top_k", request.field? "top_k"), ("stop_sequences", request.field? "stop_sequences"),
    ("tools", request.field? "tools")]

/-- Each of them is what it was. -/
theorem PortableRequest.backFields_eq {request : Json} (h : PortableRequest request)
    (contents : List Json) : backFields request contents = otherFields request := by
  have htools : (converted request contents).field? "tools" =
      (request.field? "tools").bind fun t => unlessEmpty (Tools.claudeToGemini t) :=
    field?_converted request contents _
  have htemperature : (settings request).field? "temperature" = request.field? "temperature" :=
    field?_settings request _
  have htopP : (settings request).field? "topP" = request.field? "top_p" :=
    field?_settings request _
  have htopK : (settings request).field? "topK" = request.field? "top_k" :=
    field?_settings request _
  unfold backFields
  dsimp only
  rw [h.system_eq (systemText_converted request contents), h.maxTokens_eq, h.stopSequences_eq,
    htemperature, htopP, htopK, htools, h.tools_eq]
  rfl

/-- A request with these keys and no others is made of its fields. -/
theorem objectWith_otherFields {fields : List (Bytes × Json)} {model messages : Json}
    (hsorted : Table.Sorted fields) (hkeys : ∀ field ∈ fields, field.1 ∈ portableKeys)
    (hmodel : (Json.obj fields).field? "model" = some model)
    (hmessages : (Json.obj fields).field? "messages" = some messages) :
    Json.objectWith [("model", model), ("messages", messages)] (otherFields (.obj fields)) =
      .obj fields := by
  refine Json.eq_of_field?_eq (Table.sorted_ofList _) hsorted fun key => ?_
  have hnodup : (([(Bytes.ofString "model", model), ("messages", messages)].map (·.1)) ++
      (otherFields (.obj fields)).map (·.1)).Nodup := by
    simp only [otherFields, List.map_cons, List.map_nil, List.cons_append, List.nil_append]
    decide
  refine (Json.field?_objectWith_of_nodup hnodup key).trans ?_
  by_cases hkey : key ∈ portableKeys
  · simp only [portableKeys, List.mem_cons, List.not_mem_nil, or_false] at hkey
    rcases hkey with rfl | rfl | rfl | rfl | rfl | rfl | rfl | rfl | rfl
    · exact hmodel.symm
    · exact hmessages.symm
    all_goals rfl
  · have hmissing {ν : Type} {t : Table Bytes ν} (ht : ∀ field ∈ t, field.1 ∈ portableKeys) :
        Table.find? t key = none :=
      Table.find?_eq_none fun field hfield heq => hkey (heq ▸ ht field hfield)
    have hnone : (Json.obj fields).field? key = none := hmissing hkeys
    have hothers : ∀ field ∈ otherFields (.obj fields), field.1 ∈ portableKeys := by
      simp only [otherFields, List.forall_mem_cons]
      exact ⟨by decide, by decide, by decide, by decide, by decide, by decide, by decide,
        List.forall_mem_nil _⟩
    have hfirst : ∀ field ∈ [(Bytes.ofString "model", model), ("messages", messages)],
        field.1 ∈ portableKeys := by
      simp only [List.forall_mem_cons]
      exact ⟨by decide, by decide, List.forall_mem_nil _⟩
    rw [hnone, hmissing hfirst, hmissing hothers]
    rfl

/-- **A request that both dialects express comes back as it was.** -/
theorem requestToClaude_requestOfClaude {request : Json} (h : PortableRequest request) :
    ∃ converted, requestOfClaude request = .ok converted ∧
      requestToClaude converted (request.stringField "model") = .ok request := by
  obtain ⟨fields, rfl, hsorted, hkeys⟩ := h.keys
  obtain ⟨model, hmodel⟩ := h.model
  obtain ⟨messages, hmessages, hportable⟩ := h.messages
  obtain ⟨contents, hcontents, hback⟩ := exists_contents hportable
  have hobjects : messages.filter Json.isObject = messages :=
    List.filter_eq_self.mpr fun message hmessage => (hportable message hmessage).isObject
  have hconverted : requestOfClaude (.obj fields) = .ok (converted (.obj fields) contents) := by
    have hfound : Table.find? fields "messages" = some (.arr messages) := hmessages
    unfold requestOfClaude
    rw [Json.valueD_obj, hfound]
    show Except.ok (converted (.obj fields)
      (contentsOfMessages [] ((messages.filter Json.isObject)))) = _
    rw [hobjects, hcontents]
  refine ⟨_, hconverted, ?_⟩
  have hmodelOf : (Json.obj fields).stringField "model" = model := by
    rw [Json.stringField, Json.stringFieldD, hmodel]
  rw [hmodelOf, requestToClaude_converted, hback, h.backFields_eq]
  exact congrArg Except.ok (objectWith_otherFields hsorted hkeys hmodel hmessages)

/-- A request with a system prompt, a limit, a thought, an image and a tool. -/
theorem requestToClaude_requestOfClaude_thought_image :
    let blocks : List ContentBlock :=
      [.thinking (.str "hm") (some "sig"), .text "hi", .image "image/png" "aGk="]
    let tool : Json :=
      .object [("name", .str "f"), ("input_schema", .object [("type", .str "object")])]
    let request : Json := .object [("model", .str "m"), ("max_tokens", .int 5),
      ("messages", .arr [.object [("role", .str "assistant"),
        ("content", .arr (blocks.map ContentBlock.toClaude))]]),
      ("system", .str "be brief"), ("top_p", .null), ("tools", .arr [tool])]
    ∃ converted, requestOfClaude request = .ok converted ∧
      requestToClaude converted "m" = .ok request := by
  intro blocks tool request
  have htool : PortableTool tool :=
    ⟨"f", _, none, by decide, rfl, by decide, rfl⟩
  have hblocks : ∀ block ∈ blocks, PortableBlock block := by
    simp only [blocks, List.forall_mem_cons]
    exact ⟨.thinking (by decide) (by decide), .text (by decide), .image _ _, List.forall_mem_nil _⟩
  have hportable : PortableRequest request :=
    { keys := ⟨_, rfl, Table.sorted_ofList _, by decide⟩
      model := ⟨_, rfl⟩
      messages := ⟨_, rfl, List.forall_mem_singleton.mpr
        ⟨_, blocks, .inr rfl, by decide, hblocks, rfl⟩⟩
      system := fun value hvalue => ⟨_, (Option.some.inj hvalue).symm, by decide⟩
      maxTokens := fun value hvalue => ⟨5, (Option.some.inj hvalue).symm, by decide, by decide⟩
      stopSequences := fun value hvalue => by cases hvalue
      tools := fun value hvalue => ⟨[tool], (Option.some.inj hvalue).symm, by decide,
        List.forall_mem_singleton.mpr htool⟩ }
  exact requestToClaude_requestOfClaude hportable

end ChatRelay.Gemini
